import OS161.Lib.Numeral
import OS161.Libc.Printf

namespace OS161.Libc

open Numeral (canonical)

def digitChar (d : Nat) : Byte := digits.getD d 0

def spell (ds : List Nat) : Text := ds.map digitChar

def digitVal (base : Nat) (c : Byte) : Option Nat := (digits.take base).idxOf? c

theorem digitVal_digitChar : ∀ base ≤ 16, ∀ d < base, digitVal base (digitChar d) = some d := by
  decide

theorem digitChar_ne_zero : ∀ d < 16, digitChar d ≠ 0 := by
  decide

theorem digitChar_ne_minus : ∀ d < 16, digitChar d ≠ '-'.toUInt8 := by
  decide

def Holds (buf : Mem) (n : Nat) (l : Text) : Prop := ∀ i < l.length, buf (n + i) = l.getD i 0

section
variable {buf : Mem} {n x : Nat} {l : Text} {c : Byte}

theorem Holds.store (h : Holds buf (n + 1) l) (c : Byte) :
    Holds (Function.update buf n c) n (c :: l) := by
  intro i hi
  cases i with
  | zero => simp
  | succ i =>
    have hlow : i < l.length := by simpa using hi
    rw [Function.update_of_ne (by omega),List.getD_cons_succ,← h i hlow]
    congr 1
    omega

theorem bufStore_slot (buf : Mem) (c : Byte) (h : n < numberBufSize) :
    bufStore buf ((n + 1 : Nat) - 1 : Int) c = .ok (Function.update buf n c) := by
  have hx : ((n + 1 : Nat) : Int) - 1 = n := by omega
  unfold bufStore
  rw [hx,if_pos ⟨by omega,by omega⟩,Int.toNat_natCast]

theorem scan_holds (h : Holds buf n (l ++ [0])) (hl : ∀ c ∈ l, c ≠ 0) (hlen : l.length ≤ x) :
    CString.scan buf n x = l := by
  refine CString.scan_list l hl hlen fun i _ hi => ?_
  rw [h i (by rw [List.length_append]; exact Nat.lt_succ_of_le hi)]
  rcases Nat.lt_or_eq_of_le hi with hlt | rfl
  · simp [List.getD_eq_getElem?_getD,List.getElem?_append_left hlt]
  · simp

end

section
variable {base fuel num n : Nat} {buf : Mem} {l : Text}

theorem digitLoop_spec (hb : 1 < base) (hfuel : (canonical base num).length ≤ fuel)
    (hroom : (canonical base num).length ≤ n) (hn : n ≤ numberBufSize) (h : Holds buf n l) :
    ∃ buf', digitLoop base fuel num ((n : Int) - 1) buf =
        .ok (((n - (canonical base num).length : Nat) : Int) - 1, buf') ∧
      Holds buf' (n - (canonical base num).length) (spell (canonical base num) ++ l) := by
  induction fuel generalizing num n buf l with
  | zero =>
    have hnil := List.eq_nil_of_length_eq_zero (Nat.le_zero.mp hfuel)
    exact absurd hnil Numeral.canonical_ne_nil
  | succ fuel ih =>
    have hpos : 0 < (canonical base num).length :=
      List.length_pos_of_ne_nil Numeral.canonical_ne_nil
    obtain ⟨m,rfl⟩ := Nat.exists_eq_succ_of_ne_zero (n := n) (by omega)
    have hstore := h.store (digitChar (num % base))
    have hx : ((m.succ : Nat) : Int) - 1 = m := by omega
    rw [digitLoop,bufStore_slot buf _ (by omega),ok_bind]
    by_cases hz : num / base = 0
    · have hone : canonical base num = [num % base] := Numeral.canonical_last hb hz
      rw [if_neg (by omega),hone,hx]
      exact ⟨_,rfl,hstore⟩
    · have hstep := Numeral.canonical_step hb hz
      have hlen : (canonical base num).length = (canonical base (num / base)).length + 1 := by
        rw [hstep,List.length_append,List.length_singleton]
      have hm : m.succ - (canonical base num).length =
          m - (canonical base (num / base)).length := by
        rw [hlen,Nat.succ_sub_succ]
      rw [if_pos (Nat.pos_of_ne_zero hz),hm,hstep,hx]
      obtain ⟨buf',hrun,hholds⟩ :=
        @ih (num / base) m _ _ (by omega) (by omega) (by omega) hstore
      refine ⟨buf',hrun,?_⟩
      rw [spell,List.map_append,List.append_assoc]
      exact hholds

theorem pfDigits_eq (h8 : 8 ≤ base) (h16 : base ≤ 16) (hnum : num < 2 ^ 32) (buf : Mem) :
    pfDigits base num buf = .ok (spell (canonical base num)) := by
  have hb : 1 < base := by omega
  have hlen : (canonical base num).length ≤ 11 := by
    refine Numeral.canonical_length hb (by decide) (Nat.lt_of_lt_of_le hnum ?_)
    calc 2 ^ 32 ≤ 8 ^ 11 := by decide
      _ ≤ base ^ 11 := Nat.pow_le_pow_left h8 11
  have hnul : Holds (Function.update buf 11 0) 11 [0] := by
    intro i hi
    obtain rfl : i = 0 := by simpa using hi
    simp
  obtain ⟨buf',hrun,hholds⟩ :=
    @digitLoop_spec base numberBufSize num 11 _ _ hb (Nat.le_trans hlen (by decide)) hlen (by decide)
      hnul
  have hsize : (numberBufSize : Int) - 1 - 1 = ((11 : Nat) : Int) - 1 := by decide
  have hfirst : bufStore buf ((numberBufSize : Int) - 1) 0 = .ok (Function.update buf 11 0) :=
    @bufStore_slot 11 buf 0 (by decide)
  have hstart : ((11 - (canonical base num).length : Nat) : Int) - 1 + 1 =
      (11 - (canonical base num).length : Nat) := by omega
  unfold pfDigits
  dsimp only
  rw [hfirst,ok_bind,hsize,hrun,ok_bind]
  rw [hstart,Int.toNat_natCast]
  congr 1
  refine scan_holds hholds (fun c hc => ?_) ?_
  · rw [spell,List.mem_map] at hc
    obtain ⟨d,hd,rfl⟩ := hc
    exact digitChar_ne_zero d (Nat.lt_of_lt_of_le (Numeral.canonical_lt hb d hd) h16)
  · rw [spell,List.length_map]
    exact Nat.le_trans hlen (by decide)

end

theorem cint_cint_add (a b : Int) : cint (cint a + b) = cint (a + b) := by
  unfold cint
  exact Int.bmod_add_bmod ..

theorem cint_of_lt {x : Int} (h0 : -2 ^ 31 ≤ x) (h1 : x < 2 ^ 31) : cint x = x := offT_of_lt h0 h1

theorem cint_of_nat {n : Nat} (h : n < 2 ^ 31) : cint n = n := cint_of_lt (by omega) (by omega)

structure Appends {σ : Type} (send : σ → Text → σ) : Prop where
  append : ∀ s a b, send (send s a) b = send s (a ++ b)

def padded (spacing : Nat) (rightspc : Bool) (fillchar : Byte) (prefix1 prefix2 stuff : Text) :
    Text :=
  let fill :=
    List.replicate (spacing - (prefix1.length + prefix2.length + stuff.length)) fillchar
  if rightspc then prefix1 ++ prefix2 ++ stuff ++ fill
  else if fillchar = '0'.toUInt8 then prefix1 ++ prefix2 ++ fill ++ stuff
  else fill ++ prefix1 ++ prefix2 ++ stuff

section
variable {σ : Type} {send : σ → Text → σ}

@[simp] theorem pfPrint_rightspc (pf : Pf σ) (txt : Text) :
    (pfPrint send pf txt).rightspc = pf.rightspc := rfl

@[simp] theorem pfPrint_fillchar (pf : Pf σ) (txt : Text) :
    (pfPrint send pf txt).fillchar = pf.fillchar := rfl

variable (hsend : Appends send) {pf : Pf σ}
include hsend

theorem pfPrint_pfPrint (pf : Pf σ) (a b : Text) :
    pfPrint send (pfPrint send pf a) b = pfPrint send pf (a ++ b) := by
  unfold pfPrint
  rw [hsend.append,cint_cint_add,List.length_append,Nat.cast_add,Int.add_assoc]

theorem pfFill_succ (pf : Pf σ) (k : Nat) :
    pfFill send pf (k + 1) = pfPrint send pf (List.replicate (k + 1) pf.fillchar) := by
  induction k generalizing pf with
  | zero => rfl
  | succ k ih =>
    rw [pfFill,ih,pfPrint_pfPrint hsend]
    rfl

theorem pfPrintstuff_eq {spacing : Nat} {prefix1 prefix2 stuff : Text} (hsp : pf.spacing = spacing)
    (hlow : spacing < 2 ^ 31) (hlen : prefix1.length + prefix2.length + stuff.length < 2 ^ 31) :
    pfPrintstuff send pf prefix1 prefix2 stuff =
      pfPrint send pf (padded spacing pf.rightspc pf.fillchar prefix1 prefix2 stuff) := by
  have hcint : cint ((prefix1.length : Int) + prefix2.length + stuff.length) =
      (prefix1.length + prefix2.length + stuff.length : Nat) := by
    rw [← Nat.cast_add,← Nat.cast_add,cint_of_nat hlen]
  have hspc : (if pf.spacing > (prefix1.length + prefix2.length + stuff.length : Nat) then
      cint (pf.spacing - (prefix1.length + prefix2.length + stuff.length : Nat)) else 0) =
      (spacing - (prefix1.length + prefix2.length + stuff.length) : Nat) := by
    rw [hsp]
    split
    · rw [cint_of_lt (by omega) (by omega)]
      omega
    · omega
  unfold pfPrintstuff padded
  dsimp only
  rw [hcint,hspc]
  cases spacing - (prefix1.length + prefix2.length + stuff.length) with
  | zero => simp [pfPrint_pfPrint hsend]
  | succ k =>
    have hpos : ((k + 1 : Nat) : Int) > 0 := by omega
    simp only [hpos,true_and,Int.toNat_natCast,pfFill_succ hsend]
    cases hr : pf.rightspc with
    | true => simp [hr,pfPrint_pfPrint hsend]
    | false =>
      by_cases hf : pf.fillchar = '0'.toUInt8 <;> simp [hr,hf,pfPrint_pfPrint hsend]

end

inductive Conv where
  | d
  | u
  | x
  | o
  deriving DecidableEq, Repr

namespace Conv

def char : Conv → Byte
  | d => 'd'.toUInt8
  | u => 'u'.toUInt8
  | x => 'x'.toUInt8
  | o => 'o'.toUInt8

def base : Conv → Nat
  | d => 10
  | u => 10
  | x => 16
  | o => 8

def arg (c : Conv) (w : Nat) : Int :=
  match c with
  | d => cint w
  | _ => w

theorem base_le (c : Conv) : 8 ≤ c.base ∧ c.base ≤ 16 := by
  cases c <;> decide

theorem arg_bounds (c : Conv) {w : Nat} (hw : w < 2 ^ 32) : -2 ^ 31 ≤ c.arg w ∧ c.arg w < 2 ^ 32 := by
  cases c with
  | d =>
    dsimp only [arg,cint]
    rw [Int.bmod_def]
    split <;> omega
  | u | x | o => exact ⟨by dsimp only [arg]; omega,by dsimp only [arg]; omega⟩

end Conv

def signText (v : Int) : Text := if v < 0 then chars ['-'] else []

def numText (c : Conv) (v : Int) : Text := spell (canonical c.base v.natAbs)

section
variable {σ : Type} {send : σ → Text → σ} {pf : Pf σ} {w : Nat} {ap : List Arg}

def Pf.fetched (pf : Pf σ) (ap : List Arg) (v : Int) : Pf σ :=
  { pf with ap := ap, sign := decide (v < 0), num := v.natAbs }

theorem Pf.fetched_word (pf : Pf σ) (hsign : pf.sign = false) :
    { pf with ap := ap, num := w } = pf.fetched ap (w : Int) := by
  have hpos : ¬ (w : Int) < 0 := by omega
  simp [Pf.fetched,hsign,hpos]

theorem u32_cint_neg {v : Int} (h0 : -2 ^ 31 ≤ v) (h1 : v < 0) : u32 (cint (-v)) = v.natAbs := by
  unfold u32 cint
  rw [Int.bmod_def]
  split <;> omega

theorem pfGetnum_conv (c : Conv) (hap : pf.ap = .word w :: ap) (hw : w < 2 ^ 32)
    (hsign : pf.sign = false) : pfGetnum pf c.char = .ok (pf.fetched ap (c.arg w)) := by
  have hword : u32 w = w := u32_of_nat hw
  have hva : vaWord pf = .ok (w, { pf with ap := ap }) := by
    rw [vaWord,hap]
    dsimp only
    rw [hword]
  have hbound := c.arg_bounds hw
  unfold pfGetnum
  rw [hva,ok_bind]
  dsimp only
  cases c with
  | d =>
    rw [if_neg (by decide),if_pos (by decide)]
    by_cases hneg : cint w < 0
    · have hnum : u32 (cint (-cint w)) = (cint w).natAbs := u32_cint_neg hbound.1 hneg
      rw [if_pos hneg,hnum]
      simp [Pf.fetched,Conv.arg,hneg]
    · have hnum : u32 (cint w) = (cint w).natAbs := by
        have hhigh : cint w < 2 ^ 32 := hbound.2
        unfold u32
        omega
      rw [if_neg hneg,hnum]
      simp [Pf.fetched,Conv.arg,hneg,hsign]
  | u | x | o =>
    rw [if_neg (by decide),if_neg (by decide),pf.fetched_word hsign]
    rfl

theorem pfSetbase_conv (c : Conv) (halt : pf.altformat = false) :
    pfSetbase pf c.char = { pf with base := c.base } := by
  have hplain : ¬ (pf.altformat = true ∨ c.char = 'p'.toUInt8) := by
    rw [halt]
    cases c <;> decide
  unfold pfSetbase
  rw [if_neg hplain]
  cases c <;> rfl

theorem char_kinds (c : Conv) :
    c.char ≠ 0 ∧ c.char ≠ '%'.toUInt8 ∧
      c.char ∉ chars ['#', '-', 'q', 'l', '0', '1', '2', '3', '4', '5', '6', '7', '8', '9'] ∧
      c.char ∈ chars ['d', 'o', 'u', 'p', 'x'] := by
  cases c <;> decide

theorem numText_length (c : Conv) {v : Int} (h0 : -2 ^ 31 ≤ v) (h1 : v < 2 ^ 32) :
    (numText c v).length ≤ 11 := by
  obtain ⟨h8,-⟩ := c.base_le
  have hlt : v.natAbs < 2 ^ 32 := by omega
  rw [numText,spell,List.length_map]
  refine Numeral.canonical_length (by omega) (by decide) (Nat.lt_of_lt_of_le hlt ?_)
  calc 2 ^ 32 ≤ 8 ^ 11 := by decide
    _ ≤ c.base ^ 11 := Nat.pow_le_pow_left h8 11

theorem signText_length (v : Int) : (signText v).length ≤ 1 := by
  unfold signText
  split <;> decide

theorem pfSend_conv (hsend : Appends send) (stack : Mem) (c : Conv) (hap : pf.ap = .word w :: ap)
    (hw : w < 2 ^ 32) (hsign : pf.sign = false) (halt : pf.altformat = false)
    (hbp : pf.basePrefixed = false) (hpct : pf.inPct = true) {spacing : Nat}
    (hsp : pf.spacing = spacing) (hlow : spacing < 2 ^ 31) :
    pfSend send stack pf c.char = .ok (pfEndfield (pfPrint send
      { pf.fetched ap (c.arg w) with base := c.base }
      (padded spacing pf.rightspc pf.fillchar (signText (c.arg w)) [] (numText c (c.arg w))))) := by
  obtain ⟨hnz,-,hmod,hint⟩ := char_kinds c
  obtain ⟨h8,h16⟩ := c.base_le
  obtain ⟨hv0,hv1⟩ := c.arg_bounds hw
  have hdigits : pfDigits c.base (c.arg w).natAbs stack = .ok (numText c (c.arg w)) :=
    pfDigits_eq h8 h16 (by omega) stack
  have hlen : (signText (c.arg w)).length + ([] : Text).length + (numText c (c.arg w)).length <
      2 ^ 31 := by
    have h1 := numText_length c hv0 hv1
    have h2 := signText_length (c.arg w)
    rw [List.length_nil]
    omega
  have hsgn : signPrefix1 { pf.fetched ap (c.arg w) with base := c.base } = signText (c.arg w) := by
    simp [signPrefix1,Pf.fetched,signText]
  have hbase : basePrefix1 { pf.fetched ap (c.arg w) with base := c.base } = [] := by
    simp [basePrefix1,Pf.fetched,hbp]
  have hset : pfSetbase (pf.fetched ap (c.arg w)) c.char =
      { pf.fetched ap (c.arg w) with base := c.base } := pfSetbase_conv c halt
  have hnum : pfPrintnum send stack { pf.fetched ap (c.arg w) with base := c.base } =
      .ok (pfPrint send { pf.fetched ap (c.arg w) with base := c.base }
        (padded spacing pf.rightspc pf.fillchar (signText (c.arg w)) [] (numText c (c.arg w)))) := by
    unfold pfPrintnum
    dsimp only [Pf.fetched] at hdigits hsgn hbase ⊢
    rw [hdigits,ok_bind,hsgn,hbase]
    congr 1
    exact pfPrintstuff_eq hsend hsp hlow hlen
  unfold pfSend
  rw [if_neg hnz,if_neg (by simp [hpct]),if_neg (by simp [hpct]),if_neg hmod,if_pos hint,
    pfGetnum_conv c hap hw hsign,ok_bind,hset,hnum,ok_bind]

end

section
variable {σ : Type} {send : σ → Text → σ}

def pfField (clientdata : σ) (ap : List Arg) (spacing : Int) (rightspc : Bool) (fillchar : Byte) :
    Pf σ :=
  { pfStart clientdata ap with
    inPct := true, spacing := spacing, rightspc := rightspc, fillchar := fillchar }

theorem pfSends_append (stack : Mem) (a b : Text) (pf : Pf σ) :
    pfSends send stack (a ++ b) pf = pfSends send stack a pf >>= pfSends send stack b := by
  induction a generalizing pf with
  | nil => rfl
  | cons ch a ih =>
    rw [List.cons_append,pfSends,pfSends,bind_assoc]
    exact congrArg _ (funext ih)

theorem vprintf_field (hsend : Appends send) (stack : Mem) (clientdata : σ) (c : Conv) {w : Nat}
    (hw : w < 2 ^ 32) {mods : Text} {spacing : Nat} {rightspc : Bool} {fillchar : Byte}
    (hlow : spacing < 2 ^ 31)
    (hmods : pfSends send stack mods (pfField clientdata [.word w] 0 false ' '.toUInt8) =
      .ok (pfField clientdata [.word w] spacing rightspc fillchar)) :
    ∃ count, vprintf send stack clientdata ('%'.toUInt8 :: (mods ++ [c.char])) [.word w] =
      .ok (count, send clientdata
        (padded spacing rightspc fillchar (signText (c.arg w)) [] (numText c (c.arg w)))) := by
  have hstart : pfSend send stack (pfStart clientdata [.word w]) '%'.toUInt8 =
      .ok (pfField clientdata [.word w] 0 false ' '.toUInt8) := by
    simp [pfSend,pfStart,pfEndfield,pfField]
    decide
  have hconv := @pfSend_conv σ send (pfField clientdata [.word w] spacing rightspc fillchar) w []
    hsend stack c rfl hw rfl rfl rfl rfl spacing rfl hlow
  unfold vprintf
  rw [pfSends,hstart,ok_bind,pfSends_append,hmods,ok_bind,pfSends,hconv,ok_bind,pfSends,
    ok_bind]
  exact ⟨_,rfl⟩

end

end OS161.Libc
