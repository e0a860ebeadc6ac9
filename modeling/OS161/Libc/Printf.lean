import OS161.Dev.Uio
import OS161.Lib.CString

namespace OS161.Libc

abbrev Text := List Byte

inductive Fault where
  | assertion
  | overrun
  | vaArg
  deriving DecidableEq, Repr

inductive Arg where
  | word (w : Nat)
  | str (s : Option Text)
  deriving DecidableEq, Repr

inductive IntSize where
  | intsz
  | longsz
  deriving DecidableEq, Repr

def cint (x : Int) : Int := x.bmod (2 ^ 32)

def numberBufSize : Nat := 4 * 8 / 3 + 2

structure Pf (σ : Type) where
  clientdata : σ
  ap : List Arg
  charcount : Int
  inPct : Bool
  size : IntSize
  num : Nat
  sign : Bool
  spacing : Int
  rightspc : Bool
  fillchar : Byte
  base : Nat
  basePrefixed : Bool
  altformat : Bool

def chars (l : List Char) : Text := l.map Char.toUInt8

def digits : Text :=
  chars ['0', '1', '2', '3', '4', '5', '6', '7', '8', '9', 'a', 'b', 'c', 'd', 'e', 'f']

section Printf
variable {σ : Type} (send : σ → Text → σ)

def pfPrint (pf : Pf σ) (txt : Text) : Pf σ :=
  { pf with
    clientdata := send pf.clientdata txt
    charcount := cint (pf.charcount + txt.length) }

def pfEndfield (pf : Pf σ) : Pf σ :=
  { pf with
    inPct := false
    size := .intsz
    num := 0
    sign := false
    spacing := 0
    rightspc := false
    fillchar := ' '.toUInt8
    base := 0
    basePrefixed := false
    altformat := false }

def pfModifier (pf : Pf σ) (ch : Byte) : Except Fault (Pf σ) :=
  if ch = '#'.toUInt8 then .ok { pf with altformat := true }
  else if ch = '-'.toUInt8 then .ok { pf with rightspc := true }
  else if ch = 'l'.toUInt8 then .ok (if pf.size = .longsz then pf else { pf with size := .longsz })
  else if ch = 'q'.toUInt8 then .ok { pf with size := .longsz }
  else if ch = '0'.toUInt8 then
    .ok (if 0 < pf.spacing then { pf with spacing := cint (pf.spacing * 10) }
      else { pf with fillchar := '0'.toUInt8 })
  else if '0'.toUInt8 < ch ∧ ch ≤ '9'.toUInt8 then
    .ok { pf with spacing := cint (pf.spacing * 10 + (ch.toNat - 48 : Nat)) }
  else .error .assertion

def vaWord (pf : Pf σ) : Except Fault (Nat × Pf σ) :=
  match pf.ap with
  | .word w :: ap => .ok (u32 w, { pf with ap := ap })
  | _ => .error .vaArg

def vaStr (pf : Pf σ) : Except Fault (Option Text × Pf σ) :=
  match pf.ap with
  | .str s :: ap => .ok (s, { pf with ap := ap })
  | _ => .error .vaArg

-- int and long have 32 bits each, so pf->size does not change what is read.
def pfGetnum (pf : Pf σ) (ch : Byte) : Except Fault (Pf σ) := do
  let (w, pf) ← vaWord pf
  if ch = 'p'.toUInt8 then .ok { pf with num := w }
  else if ch = 'd'.toUInt8 then
    let signednum := cint w
    if signednum < 0 then .ok { pf with sign := true, num := u32 (cint (-signednum)) }
    else .ok { pf with num := u32 signednum }
  else .ok { pf with num := w }

def pfSetbase (pf : Pf σ) (ch : Byte) : Pf σ :=
  { pf with
    base :=
      if ch = 'd'.toUInt8 ∨ ch = 'u'.toUInt8 then 10
      else if ch = 'x'.toUInt8 ∨ ch = 'p'.toUInt8 then 16
      else if ch = 'o'.toUInt8 then 8
      else pf.base
    basePrefixed := if pf.altformat ∨ ch = 'p'.toUInt8 then true else pf.basePrefixed }

def pfFill (pf : Pf σ) : Nat → Pf σ
  | 0 => pf
  | spc + 1 => pfFill (pfPrint send pf [pf.fillchar]) spc

def pfPrintstuff (pf : Pf σ) (prefix1 prefix2 stuff : Text) : Pf σ :=
  let len := cint (prefix1.length + prefix2.length + stuff.length)
  let spc := if pf.spacing > len then cint (pf.spacing - len) else 0
  let pf :=
    if spc > 0 ∧ pf.rightspc = false ∧ pf.fillchar ≠ '0'.toUInt8 then pfFill send pf spc.toNat
    else pf
  let pf := pfPrint send pf prefix1
  let pf := pfPrint send pf prefix2
  let pf :=
    if spc > 0 ∧ pf.rightspc = false ∧ pf.fillchar = '0'.toUInt8 then pfFill send pf spc.toNat
    else pf
  let pf := pfPrint send pf stuff
  if spc > 0 ∧ pf.rightspc = true then pfFill send pf spc.toNat else pf

-- A store through the pointer buf+x faults unless it stays in the array.
def bufStore (buf : Mem) (x : Int) (c : Byte) : Except Fault Mem :=
  if 0 ≤ x ∧ x < numberBufSize then .ok (Function.update buf x.toNat c) else .error .overrun

-- The do-while loop: with one round for each slot, the last one faults before fuel runs out.
def digitLoop (base : Nat) : Nat → Nat → Int → Mem → Except Fault (Int × Mem)
  | 0, _, _, _ => .error .overrun
  | fuel + 1, xnum, x, buf => do
    let buf ← bufStore buf x (digits.getD (xnum % base) 0)
    let x := x - 1
    let xnum := xnum / base
    if xnum > 0 then digitLoop base fuel xnum x buf else .ok (x, buf)

def pfDigits (base num : Nat) (buf : Mem) : Except Fault Text := do
  let x : Int := (numberBufSize : Int) - 1
  let buf ← bufStore buf x 0
  let (x, buf) ← digitLoop base numberBufSize num (x - 1) buf
  .ok (CString.scan buf (x + 1).toNat numberBufSize)

def basePrefix1 (pf : Pf σ) : Text :=
  if pf.basePrefixed ∧ pf.base = 16 then chars ['0', 'x']
  else if pf.basePrefixed ∧ pf.base = 8 then chars ['0']
  else []

def signPrefix1 (pf : Pf σ) : Text := if pf.sign then chars ['-'] else []

-- `buf` is what the stack held where the array is placed.
def pfPrintnum (buf : Mem) (pf : Pf σ) : Except Fault (Pf σ) := do
  let x ← pfDigits pf.base pf.num buf
  .ok (pfPrintstuff send pf (signPrefix1 pf) (basePrefix1 pf) x)

def pfSend (buf : Mem) (pf : Pf σ) (ch : Byte) : Except Fault (Pf σ) :=
  if ch = 0 then .error .assertion
  else if pf.inPct = false ∧ ch ≠ '%'.toUInt8 then .ok (pfPrint send pf [ch])
  else if pf.inPct = false then .ok { pf with inPct := true }
  else if ch ∈ chars ['#', '-', 'q', 'l', '0', '1', '2', '3', '4', '5', '6', '7', '8', '9'] then
    pfModifier pf ch
  else if ch ∈ chars ['d', 'o', 'u', 'p', 'x'] then do
    let pf ← pfGetnum pf ch
    let pf ← pfPrintnum send buf (pfSetbase pf ch)
    .ok (pfEndfield pf)
  else if ch = 's'.toUInt8 then do
    let (str, pf) ← vaStr pf
    let str := str.getD (chars ['(', 'n', 'u', 'l', 'l', ')'])
    .ok (pfEndfield (pfPrintstuff send pf [] [] str))
  else if ch = 'c'.toUInt8 then do
    let (w, pf) ← vaWord pf
    let x := CString.scan (fun i => if i = 0 then UInt8.ofNat w else 0) 0 2
    .ok (pfEndfield (pfPrintstuff send pf [] [] x))
  else .ok (pfEndfield (pfPrintstuff send pf [] [] [ch]))

def pfSends (buf : Mem) : Text → Pf σ → Except Fault (Pf σ)
  | [], pf => .ok pf
  | ch :: format, pf => do
    let pf ← pfSend send buf pf ch
    pfSends buf format pf

def pfStart (clientdata : σ) (ap : List Arg) : Pf σ :=
  pfEndfield
    { clientdata, ap, charcount := 0, inPct := false, size := .intsz, num := 0, sign := false,
      spacing := 0, rightspc := false, fillchar := 0, base := 0, basePrefixed := false,
      altformat := false }

def vprintf (buf : Mem) (clientdata : σ) (format : Text) (ap : List Arg) :
    Except Fault (Int × σ) := do
  let pf ← pfSends send buf format (pfStart clientdata ap)
  .ok (pf.charcount, pf.clientdata)

end Printf

structure Snp where
  buf : Mem
  buflen : Nat
  bufpos : Nat

def snpPut (snp : Snp) (c : Byte) : Snp :=
  if snp.bufpos < snp.buflen then
    { snp with buf := Function.update snp.buf snp.bufpos c, bufpos := snp.bufpos + 1 }
  else snp

def snprintfSend (snp : Snp) (data : Text) : Snp := data.foldl snpPut snp

def vsnprintf (stack buf : Mem) (len : Nat) (fmt : Text) (ap : List Arg) :
    Except Fault (Int × Mem) := do
  let (chars, snp) ← vprintf snprintfSend stack ⟨buf, if len = 0 then 0 else len - 1, 0⟩ fmt ap
  .ok (chars, if len > 0 then Function.update snp.buf snp.bufpos 0 else snp.buf)

def snprintf (stack buf : Mem) (len : Nat) (fmt : Text) (ap : List Arg) : Except Fault (Int × Mem) :=
  vsnprintf stack buf len fmt ap

-- `s` is the string up to its NUL: the end of the list is the NUL itself.
def atoiSkip (s : Text) : Text := s.dropWhile fun c => c = ' '.toUInt8 ∨ c = '\t'.toUInt8

def atoiSign : Text → Bool × Text
  | [] => (false, [])
  | c :: s =>
    if c = '-'.toUInt8 then (true, s)
    else if c = '+'.toUInt8 then (false, s)
    else (false, c :: s)

def atoiDigits : Nat → Text → Nat
  | val, [] => val
  | val, c :: s =>
    match (digits.take 10).idxOf? c with
    | none => val
    | some digit => atoiDigits (u32 (u32 (val * 10) + digit)) s

def atoi (s : Text) : Int :=
  let (neg, s) := atoiSign (atoiSkip s)
  let val := atoiDigits 0 s
  if neg then cint (u32 (-val)) else cint val

end OS161.Libc
