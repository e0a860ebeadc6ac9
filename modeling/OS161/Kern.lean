import Mathlib.Algebra.Order.Ring.Int

namespace OS161

inductive Errno where
  | einval | efault | enametoolong | enomem | eio | enoent | enotdir | eisdir | eexist
  | exdev | eagain | espipe | eunimp | enxio | enodev | ebusy | eioctl | enotempty
  | erange | enospc | emfile | enfile | enosys | enoexec | e2big | ebadf
  deriving DecidableEq, Repr

inductive Stop where
  | panic (msg : String)
  | asleep
  | hang
  deriving DecidableEq, Repr

abbrev Kern (α : Type) := Except Stop α

theorem ok_bind {ε α β : Type} (a : α) (f : α → Except ε β) :
    ((Except.ok a : Except ε α) >>= f) = f a := rfl

def assert (cond : Bool) (msg : String) : Kern Unit :=
  if cond then .ok () else .error (.panic msg)

@[simp] theorem assert_true (msg : String) : assert true msg = .ok () := rfl

@[simp] theorem assert_false (msg : String) : assert false msg = .error (.panic msg) := rfl

theorem assert_of {cond : Bool} {msg : String} (h : cond = true) : assert cond msg = .ok () := by
  rw [h,assert_true]

theorem assert_ok {cond : Bool} {msg : String} {u : Unit} (h : assert cond msg = .ok u) :
    cond = true := by
  cases cond with
  | true => rfl
  | false => simp at h

theorem bind_ok {ε α β : Type} {x : Except ε α} {f : α → Except ε β} {b : β}
    (h : x >>= f = .ok b) : ∃ a, x = .ok a ∧ f a = .ok b := by
  cases x with
  | error e => cases h
  | ok a => exact ⟨a,rfl,h⟩

theorem ok_of_toOption {ε α : Type} {k : Except ε α} {a : α} (h : k.toOption = some a) :
    k = .ok a := by
  cases k with
  | error e => cases h
  | ok b =>
    cases h
    rfl

theorem assert_bind_ok {β : Type} {cond : Bool} {msg : String} {f : Unit → Kern β} {b : β}
    (h : assert cond msg >>= f = .ok b) : cond = true ∧ f () = .ok b := by
  obtain ⟨_,hc,hf⟩ := bind_ok h
  exact ⟨assert_ok hc,hf⟩

def u32 (x : Int) : Nat := (x % 2 ^ 32).toNat

def offT (x : Int) : Int := x.bmod (2 ^ 32)

@[simp] theorem u32_zero : u32 0 = 0 := rfl

theorem u32_lt (x : Int) : u32 x < 2 ^ 32 := by
  unfold u32
  omega

theorem u32_of_nat {n : Nat} (h : n < 2 ^ 32) : u32 n = n := by
  unfold u32
  omega

theorem offT_of_lt {x : Int} (h0 : -2 ^ 31 ≤ x) (h1 : x < 2 ^ 31) : offT x = x := by
  unfold offT
  rw [Int.bmod_def]
  split <;> omega

end OS161
