import OS161.Dev.Uio

namespace OS161

def sectsize : Nat := 512

abbrev Block := Fin 512 → Byte

def Block.toMem (b : Block) : Mem := fun i => if h : i < 512 then b ⟨i, h⟩ else 0

def Block.ofMem (m : Mem) : Block := fun i => m i

structure Lhd where
  disk : Nat → Block
  buf : Block
  dBlocks : Nat
  irqs : List Nat

def lhdCodeToErrno (code : Nat) : Option Errno :=
  match code &&& 0x1d with
  | 4 => none
  | 12 => some .einval
  | 20 => some .eio
  | _ => some .eagain

def lhdIrq (val : Nat) : Option (Option Errno) :=
  match val &&& 0x1d with
  | 0 | 1 => none
  | 4 | 12 | 20 => some (lhdCodeToErrno val)
  | _ => none

def lhdDone : List Nat → Option (Option Errno × List Nat)
  | [] => none
  | val :: irqs =>
    match lhdIrq val with
    | some result => some (result, irqs)
    | none => lhdDone irqs

def lhdOp (lh : Lhd) (sector : Nat) (rw : UioRw) : Kern (Option Errno × Lhd) :=
  match lhdDone lh.irqs with
  | none => .error .asleep
  | some (some e, irqs) => .ok (some e, { lh with irqs := irqs })
  | some (none, irqs) =>
    match rw with
    | .write => .ok (none, { lh with
        disk := Function.update lh.disk sector lh.buf, irqs := irqs })
    | .read => .ok (none, { lh with buf := lh.disk sector, irqs := irqs })

section
variable (cur : Curthread)

def lhdIoLoop (sector : Nat) : Nat → Nat → Lhd → Uio → Kern (Option Errno × Lhd × Uio)
  | 0, _, lh, uio => .ok (none, lh, uio)
  | k + 1, i, lh, uio =>
    match uio.rw with
    | .write => do
      match ← uiomove cur lh.buf.toMem sectsize uio with
      | (some e, _, uio) => .ok (some e, lh, uio)
      | (none, ptr, uio) =>
        match ← lhdOp { lh with buf := Block.ofMem ptr } (u32 (sector + i)) .write with
        | (some e, lh) => .ok (some e, lh, uio)
        | (none, lh) => lhdIoLoop sector k (i + 1) lh uio
    | .read => do
      match ← lhdOp lh (u32 (sector + i)) .read with
      | (some e, lh) => .ok (some e, lh, uio)
      | (none, lh) =>
        match ← uiomove cur lh.buf.toMem sectsize uio with
        | (some e, _, uio) => .ok (some e, lh, uio)
        | (none, _, uio) => lhdIoLoop sector k (i + 1) lh uio

def ioSector (offset : Int) : Nat := u32 (offset.tdiv 512)

def lhdRefuses (dBlocks sector len : Nat) : Bool := dBlocks < u32 (sector + len)

def lhdIo (lh : Lhd) (uio : Uio) : Kern (Option Errno × Lhd × Uio) :=
  let sector := ioSector uio.offset
  let sectoff := u32 (uio.offset.tmod 512)
  let len := uio.resid / sectsize
  let lenoff := uio.resid % sectsize
  if sectoff ≠ 0 ∨ lenoff ≠ 0 then .ok (some .einval, lh, uio)
  else if lhdRefuses lh.dBlocks sector len then .ok (some .einval, lh, uio)
  else lhdIoLoop cur sector len 0 lh uio

end

end OS161
