import OS161.Kern

namespace OS161

abbrev Byte := UInt8

abbrev Mem := Nat → Byte

def memmove (dst : Mem) (i : Nat) (src : Mem) (j n : Nat) : Mem :=
  fun k => if i ≤ k ∧ k < i + n then src (j + (k - i)) else dst k

theorem memmove_zero (dst src : Mem) (i j : Nat) : memmove dst i src j 0 = dst := by
  funext k
  unfold memmove
  rw [if_neg (by omega)]

inductive UioRw where
  | read
  | write
  deriving DecidableEq, Repr

inductive UioSeg where
  | userspace
  | sysspace
  | userispace
  deriving DecidableEq, Repr

structure Uio where
  iovBuf : Mem
  iovBase : Nat
  iovLen : Nat
  offset : Int
  resid : Nat
  segflg : UioSeg
  rw : UioRw
  space : Option Nat

structure Curthread where
  vmspace : Option Nat
  copyinout : Nat → Nat → Option Errno

def Uio.copied (cur : Curthread) (uio : Uio) (size : Nat) : Option Errno :=
  match uio.segflg with
  | .sysspace => none
  | .userspace | .userispace => cur.copyinout uio.iovBase size

section
variable (cur : Curthread)

def uiomoveLoop : Nat → Mem → Nat → Nat → Uio → Kern (Option Errno × Mem × Uio)
  | 0, ptr, _, _, uio => .ok (none, ptr, uio)
  | fuel + 1, ptr, p, n, uio =>
    if 0 < n ∧ 0 < uio.resid then
      let size := min uio.iovLen n
      if size = 0 then .error (.panic "uiomove: size reached 0")
      else
        match uio.copied cur size with
        | some e => .ok (some e, ptr, uio)
        | none =>
          let buf := match uio.rw with
            | .read => memmove uio.iovBuf uio.iovBase ptr p size
            | .write => uio.iovBuf
          let ptr := match uio.rw with
            | .read => ptr
            | .write => memmove ptr p uio.iovBuf uio.iovBase size
          uiomoveLoop fuel ptr (p + size) (n - size)
            { uio with
              iovBuf := buf
              iovBase := uio.iovBase + size
              iovLen := uio.iovLen - size
              resid := u32 (uio.resid - size)
              offset := offT (uio.offset + size) }
    else .ok (none, ptr, uio)

def uiomoveAt (ptr : Mem) (p n : Nat) (uio : Uio) : Kern (Option Errno × Mem × Uio) := do
  match uio.segflg with
  | .sysspace => assert (uio.space = none) "uio->uio_space == NULL"
  | .userspace | .userispace =>
    assert (uio.space = cur.vmspace) "uio->uio_space == curthread->t_vmspace"
  uiomoveLoop cur n ptr p n uio

def uiomove (ptr : Mem) (n : Nat) (uio : Uio) : Kern (Option Errno × Mem × Uio) :=
  uiomoveAt cur ptr 0 n uio

def zeros : Mem := fun _ => 0

def uiomovezerosLoop : Nat → Nat → Uio → Kern (Option Errno × Uio)
  | 0, _, uio => .ok (none, uio)
  | fuel + 1, n, uio =>
    if 0 < n then do
      let amt := min 16 n
      match ← uiomove cur zeros amt uio with
      | (some e, _, uio) => .ok (some e, uio)
      | (none, _, uio) => uiomovezerosLoop fuel (n - amt) uio
    else .ok (none, uio)

def uiomovezeros (n : Nat) (uio : Uio) : Kern (Option Errno × Uio) := do
  assert (uio.rw = .read) "uio->uio_rw == UIO_READ"
  uiomovezerosLoop cur n n uio

end

def Uio.ready (cur : Curthread) (uio : Uio) : Prop :=
  match uio.segflg with
  | .sysspace => uio.space = none
  | .userspace | .userispace =>
    uio.space = cur.vmspace ∧ ∀ base size, cur.copyinout base size = none

def Uio.advance (uio : Uio) (m : Nat) : Uio :=
  { uio with
    iovBase := uio.iovBase + m
    iovLen := uio.iovLen - m
    resid := u32 (uio.resid - m)
    offset := offT (uio.offset + m) }

section
variable {cur : Curthread} {uio : Uio}

theorem uiomove_eq_loop (h : uio.ready cur) (ptr : Mem) (n : Nat) :
    uiomove cur ptr n uio = uiomoveLoop cur n ptr 0 n uio := by
  unfold uiomove uiomoveAt
  unfold Uio.ready at h
  split at h <;> simp [h] <;> rfl

theorem uiomoveLoop_stop (fuel : Nat) (ptr : Mem) (p : Nat) (uio : Uio) :
    uiomoveLoop cur fuel ptr p 0 uio = .ok (none, ptr, uio) := by
  cases fuel with
  | zero => rfl
  | succ fuel => simp [uiomoveLoop]

theorem copied_of_ready (h : uio.ready cur) (size : Nat) : uio.copied cur size = none := by
  unfold Uio.ready at h
  unfold Uio.copied
  split at h
  · rfl
  · exact h.2 _ _
  · exact h.2 _ _

theorem uiomove_write (h : uio.ready cur) (hw : uio.rw = .write) (ptr : Mem) {n : Nat}
    (hn : 0 < n) (hl : n ≤ uio.iovLen) (hr : n ≤ uio.resid) :
    uiomove cur ptr n uio =
      .ok (none, memmove ptr 0 uio.iovBuf uio.iovBase n, uio.advance n) := by
  obtain ⟨m,rfl⟩ : ∃ m, n = m + 1 := ⟨n - 1,by omega⟩
  have hsize : min uio.iovLen (m + 1) = m + 1 := by omega
  rw [uiomove_eq_loop h,uiomoveLoop,if_pos ⟨hn,by omega⟩]
  simp [hsize,copied_of_ready h,hw,uiomoveLoop_stop,Uio.advance]

end

def mkKuio (kbuf : Mem) (len : Nat) (pos : Int) (rw : UioRw) : Uio where
  iovBuf := kbuf
  iovBase := 0
  iovLen := len
  offset := pos
  resid := len
  segflg := .sysspace
  rw := rw
  space := none

end OS161
