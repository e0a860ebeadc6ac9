import OS161.Kern
import OS161.Lib.Bytes

namespace OS161.Libc

open Bytes (load32 store32)

def mblocksize : Nat := 8

def mmagic : Nat := 2

structure Mheader where
  prevblock : Nat
  pad : Nat
  magic1 : Nat
  nextblock : Nat
  inuse : Nat
  magic2 : Nat
  deriving DecidableEq, Repr

inductive Exit where
  | err (msg : String)
  | errx (msg : String) (args : List Nat)
  | hang
  deriving DecidableEq, Repr

structure Heap where
  mem : Bytes.Mem
  heapbase : Nat
  heaptop : Nat
  brk : Nat

structure Grants where
  probe : Bool
  align : Bool
  grow : Bool
  deriving DecidableEq, Repr

def getHeader (m : Bytes.Mem) (mh : Nat) : Mheader where
  prevblock := load32 m mh / 8
  pad := load32 m mh / 4 % 2
  magic1 := load32 m mh % 4
  nextblock := load32 m (mh + 4) / 8
  inuse := load32 m (mh + 4) / 4 % 2
  magic2 := load32 m (mh + 4) % 4

def setHeader (m : Bytes.Mem) (mh : Nat) (h : Mheader) : Bytes.Mem :=
  store32 (store32 m mh (h.prevblock % 2 ^ 29 * 8 + h.pad % 2 * 4 + h.magic1 % 4)) (mh + 4)
    (h.nextblock % 2 ^ 29 * 8 + h.inuse % 2 * 4 + h.magic2 % 4)

namespace Mheader

def nextoff (h : Mheader) : Nat := u32 (h.nextblock * 8)

def prevoff (h : Mheader) : Nat := u32 (h.prevblock * 8)

def size (h : Mheader) : Nat := u32 (h.nextoff - mblocksize)

def ok (h : Mheader) : Bool := h.magic1 = mmagic && h.magic2 = mmagic

end Mheader

def mNext (m : Bytes.Mem) (mh : Nat) : Nat := u32 (mh + (getHeader m mh).nextoff)

def mPrev (m : Bytes.Mem) (mh : Nat) : Nat := u32 (mh - (getHeader m mh).prevoff)

def mkfield (off : Nat) : Nat := off / 8

-- What sbrk answers to an amount: the old break and the new state, or an error.
abbrev Sbrk := Heap → Nat → Bool → Option (Nat × Heap)

def extending : Sbrk := fun h n grant =>
  if grant = true ∧ h.brk + n < 2 ^ 32 then some (h.brk, { h with brk := h.brk + n }) else none

-- The amount is an int, and the break may fall, but not below the start of the heap region.
def adjusting (start : Nat) : Sbrk := fun h n grant =>
  let brk := h.brk + offT n
  if grant = true ∧ start ≤ brk ∧ brk < 2 ^ 32 then some (h.brk, { h with brk := brk.toNat })
  else none

section
variable (sbrk : Sbrk)

def mallocAlign (h : Heap) (grants : Grants) : Except Exit Heap :=
  if h.heapbase % mblocksize ≠ 0 then
    let adjust := mblocksize - h.heapbase % mblocksize
    match sbrk h adjust grants.align with
    | none => .error (.err "malloc: sbrk failed aligning heap base")
    | some (x, h') =>
      if x ≠ h'.heapbase then .error (.err "malloc: heap base moved during init")
      else
        .ok { h' with
          heapbase := u32 (h'.heapbase + adjust)
          heaptop := u32 (h'.heapbase + adjust) }
  else .ok h

def mallocInit (h : Heap) (grants : Grants) : Except Exit Heap :=
  if h.heapbase ≠ 0 ∨ h.heaptop ≠ 0 then
    .error (.errx "malloc: Internal error - bad init call" [])
  else
    match sbrk h 0 grants.probe with
    | none => .error (.err "malloc: initial sbrk failed")
    | some (x, h') =>
      if x = 0 then .error (.errx "malloc: Internal error - heap began at 0" [])
      else mallocAlign sbrk { h' with heapbase := x, heaptop := x } grants

def mallocSbrk (h : Heap) (size : Nat) (grants : Grants) : Except Exit (Option (Nat × Heap)) :=
  match sbrk h size grants.grow with
  | none => .ok none
  | some (x, h') =>
    if x ≠ h'.heaptop then
      .error (.errx "malloc: Internal error - heap top moved itself from 0x%lx to 0x%lx"
        [h'.heaptop, x])
    else .ok (some (x, { h' with heaptop := u32 (h'.heaptop + size) }))

def mallocSplit (h : Heap) (mh size : Nat) : Except Exit Heap :=
  if size % mblocksize ≠ 0 then
    .error (.errx "malloc: Internal error (size %lu passed to split)" [size])
  else if u32 ((getHeader h.mem mh).size - size) < 2 * mblocksize then .ok h
  else
    let mhnext := mNext h.mem mh
    let oldsize := (getHeader h.mem mh).size
    let m₁ := setHeader h.mem mh
      { getHeader h.mem mh with nextblock := mkfield (u32 (size + mblocksize)) }
    let mhnew := mNext m₁ mh
    if mhnew = mhnext then .error (.errx "malloc: Internal error (split screwed up?)" [])
    else
      let m₂ := setHeader m₁ mhnew
        { prevblock := mkfield (u32 (size + mblocksize))
          pad := 0
          magic1 := mmagic
          nextblock := mkfield (u32 (oldsize - size))
          inuse := 0
          magic2 := mmagic }
      let m₃ :=
        if mhnext ≠ h.heaptop then
          setHeader m₂ mhnext
            { getHeader m₂ mhnext with prevblock := (getHeader m₂ mhnew).nextblock }
        else m₂
      .ok { h with mem := m₃ }

inductive Search where
  | found (mh : Nat)
  | finished (i rightprevblock : Nat)
  deriving DecidableEq, Repr

def mallocSearch (h : Heap) (size : Nat) : Nat → Nat → Nat → Except Exit Search
  | fuel, i, rightprevblock =>
    if i < h.heaptop then
      match fuel with
      | 0 => .error .hang
      | fuel + 1 =>
        let mh := getHeader h.mem i
        if mh.ok = false then
          .error (.errx "malloc: Heap corrupt; header at 0x%lx has bad magic bits" [i])
        else if mh.prevblock ≠ rightprevblock then
          .error (.errx ("malloc: Heap corrupt; header at 0x%lx" ++
            " has bad previous-block size %lu (should be %lu)")
            [i, u32 (mh.prevblock * 8), u32 (rightprevblock * 8)])
        else if mh.inuse ≠ 0 then mallocSearch h size fuel (u32 (i + mh.nextoff)) mh.nextblock
        else if mh.size < size then mallocSearch h size fuel (u32 (i + mh.nextoff)) mh.nextblock
        else .ok (.found i)
    else .ok (.finished i rightprevblock)

def roundUp (size : Nat) : Nat := u32 (size + mblocksize - 1) / mblocksize * mblocksize

def mallocTake (h : Heap) (mh size : Nat) : Except Exit (Nat × Heap) := do
  let h' ← mallocSplit h mh size
  .ok (u32 (mh + mblocksize),
    { h' with mem := setHeader h'.mem mh { getHeader h'.mem mh with inuse := 1 } })

def mallocExtend (h : Heap) (size rightprevblock : Nat) (grants : Grants) :
    Except Exit (Nat × Heap) := do
  match ← mallocSbrk sbrk h (u32 (size + mblocksize)) grants with
  | none => .ok (0, h)
  | some (mh, h') =>
    .ok (u32 (mh + mblocksize),
      { h' with
        mem := setHeader h'.mem mh
          { prevblock := rightprevblock
            pad := 0
            magic1 := mmagic
            nextblock := mkfield (u32 (size + mblocksize))
            inuse := 1
            magic2 := mmagic } })

def malloc (h : Heap) (size : Nat) (grants : Grants) : Except Exit (Nat × Heap) := do
  let h ← if h.heapbase = 0 then mallocInit sbrk h grants else .ok h
  if h.heapbase = 0 ∨ h.heaptop = 0 ∨ h.heapbase > h.heaptop then
    .error (.errx "malloc: heapbase 0x%lx; heaptop 0x%lx" [h.heapbase, h.heaptop])
  else
    match ← mallocSearch h (roundUp size) (h.heaptop - h.heapbase) h.heapbase 0 with
    | .found mh => mallocTake h mh (roundUp size)
    | .finished i rightprevblock =>
      if i ≠ h.heaptop then .error (.errx "malloc: Heap corrupt; ran off end" [])
      else mallocExtend sbrk h (roundUp size) rightprevblock grants

end

def deadbeefWords (m : Bytes.Mem) (x : Nat) : Nat → Bytes.Mem
  | 0 => m
  | n + 1 => deadbeefWords (store32 m x 0xdeadbeef) (x + 4) n

def mallocDeadbeef (m : Bytes.Mem) (ptr size : Nat) : Bytes.Mem := deadbeefWords m ptr (size / 4)

def mallocTrymerge (h : Heap) (mh mhnext : Nat) : Except Exit Heap :=
  let lower := getHeader h.mem mh
  let upper := getHeader h.mem mhnext
  if lower.nextblock ≠ upper.prevblock then
    .error (.errx "free: Heap corrupt (%p and %p inconsistent)" [mh, mhnext])
  else if lower.inuse ≠ 0 ∨ upper.inuse ≠ 0 then .ok h
  else
    let mhnextnext := mNext h.mem mhnext
    let m₁ := setHeader h.mem mh
      { lower with
        nextblock := mkfield (u32 (mblocksize + lower.size + mblocksize + upper.size)) }
    let m₂ :=
      if mhnextnext ≠ h.heaptop then
        setHeader m₁ mhnextnext
          { getHeader m₁ mhnextnext with prevblock := (getHeader m₁ mh).nextblock }
      else m₁
    .ok { h with mem := mallocDeadbeef m₂ mhnext mblocksize }

def freeMerge (h : Heap) (mh : Nat) : Except Exit Heap := do
  let h' ← if mNext h.mem mh ≠ h.heaptop then mallocTrymerge h mh (mNext h.mem mh) else .ok h
  if mh ≠ h'.heapbase then mallocTrymerge h' (mPrev h'.mem mh) mh else .ok h'

def free (h : Heap) (x : Nat) : Except Exit Heap :=
  if x = 0 then .ok h
  else if h.heapbase = 0 ∨ h.heaptop = 0 ∨ h.heapbase > h.heaptop then
    .error (.errx "free: heapbase 0x%lx; heaptop 0x%lx" [h.heapbase, h.heaptop])
  else if x < h.heapbase ∨ x ≥ h.heaptop then
    .error (.errx "free: Invalid pointer %p freed (out of range)" [x])
  else
    let mh := u32 (x - mblocksize)
    if (getHeader h.mem mh).ok = false then
      .error (.errx "free: Invalid pointer %p freed (corrupt header)" [x])
    else if (getHeader h.mem mh).inuse = 0 then
      .error (.errx "free: Invalid pointer %p freed (already free)" [x])
    else
      let m₁ := setHeader h.mem mh { getHeader h.mem mh with inuse := 0 }
      let m₂ := mallocDeadbeef m₁ (u32 (mh + mblocksize)) (getHeader m₁ mh).size
      freeMerge { h with mem := m₂ } mh

end OS161.Libc
