import OS161.Lib.Bytes

structure CString where
  bytes : List UInt8
  nonzero : ∀ b ∈ bytes, b ≠ 0
  deriving DecidableEq

namespace CString

open Bytes (Mem)

def scan (m : Mem) (a : Nat) : Nat → List UInt8
  | 0 => []
  | n + 1 => if m a = 0 then [] else m a :: scan m (a + 1) n

theorem scan_nonzero (m : Mem) (a n : Nat) : ∀ b ∈ scan m a n, b ≠ 0 := by
  induction n generalizing a with
  | zero => simp [scan]
  | succ n ih =>
    rw [scan]
    split
    · simp
    · simp only [List.mem_cons,forall_eq_or_imp]
      exact ⟨by assumption,ih (a + 1)⟩

def read (m : Mem) (a n : Nat) : CString := ⟨scan m a n, scan_nonzero m a n⟩

def poke (m : Mem) (a : Nat) (s : CString) : Mem := fun x =>
  if a ≤ x ∧ x ≤ a + s.bytes.length then s.bytes.getD (x - a) 0 else m x

section
variable {m m' : Mem} {a n x : Nat} {s : CString}

@[ext] theorem ext {s t : CString} (h : s.bytes = t.bytes) : s = t := by
  cases s
  cases t
  cases h
  rfl

theorem scan_congr {b : Nat} (h : ∀ i < n, m' (b + i) = m (a + i)) : scan m' b n = scan m a n := by
  induction n generalizing a b with
  | zero => rfl
  | succ n ih =>
    have h0 : m' b = m a := h 0 (Nat.succ_pos n)
    have hrest : scan m' (b + 1) n = scan m (a + 1) n := by
      refine ih fun i hi => ?_
      have hnext := h (i + 1) (Nat.succ_lt_succ hi)
      rwa [Nat.add_assoc,Nat.add_assoc,Nat.add_comm 1 i]
    rw [scan,scan,h0,hrest]

theorem read_congr {b : Nat} (h : ∀ i < n, m' (b + i) = m (a + i)) : read m' b n = read m a n :=
  ext (scan_congr h)

theorem poke_outside (h : x < a ∨ a + s.bytes.length < x) : poke m a s x = m x := by
  unfold poke
  rw [if_neg (by omega)]

theorem scan_list (l : List UInt8) (hl : ∀ b ∈ l, b ≠ 0) (hn : l.length ≤ n)
    (hm : ∀ i, i < n → i ≤ l.length → m (a + i) = l.getD i 0) : scan m a n = l := by
  induction n generalizing a l with
  | zero =>
    obtain rfl : l = [] := List.eq_nil_of_length_eq_zero (by omega)
    rfl
  | succ n ih =>
    have h0 := hm 0 (by omega) (by omega)
    rw [Nat.add_zero] at h0
    rw [scan]
    cases l with
    | nil =>
      rw [if_pos (by simpa using h0)]
    | cons b l =>
      have hb : m a = b := by simpa using h0
      rw [if_neg (hb ▸ hl b List.mem_cons_self),hb]
      rw [ih l (fun c hc => hl c (List.mem_cons_of_mem _ hc)) (by simpa using hn) fun i hi hle => ?_]
      have hnext := hm (i + 1) (by omega) (by simpa using hle)
      simpa [Nat.add_assoc,Nat.add_comm 1 i] using hnext

theorem read_poke (hn : s.bytes.length ≤ n) : read (poke m a s) a n = s := by
  refine ext (scan_list s.bytes s.nonzero hn fun i _ hle => ?_)
  unfold poke
  rw [if_pos (by omega),Nat.add_sub_cancel_left]

end

end CString
