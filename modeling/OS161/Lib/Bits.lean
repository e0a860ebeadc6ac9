import Mathlib.Data.Nat.Bitwise

namespace Bits

open Function

def get (w : Nat) (ws : Nat → Nat) (i : Nat) : Bool := (ws (i / w)).testBit (i % w)

def raise (ws : Nat → Nat) (i j : Nat) : Nat → Nat := Function.update ws i (ws i ||| 2 ^ j)

def lower (w : Nat) (ws : Nat → Nat) (i j : Nat) : Nat → Nat :=
  Function.update ws i (ws i &&& ((2 ^ w - 1) ^^^ 2 ^ j))

def firstClear (word : Nat) : Nat → Nat → Option Nat
  | 0, _ => none
  | left + 1, j => if word.testBit j then firstClear word left (j + 1) else some j

inductive Scan where
  | full
  | found (i j : Nat)
  | stuck
  deriving DecidableEq, Repr

def scan (w : Nat) (ws : Nat → Nat) : Nat → Nat → Scan
  | 0, _ => .full
  | left + 1, i =>
    if ws i = 2 ^ w - 1 then scan w ws left (i + 1)
    else
      match firstClear (ws i) w 0 with
      | some j => .found i j
      | none => .stuck

section
variable {w : Nat} {ws : Nat → Nat}

theorem firstClear_spec (word left j : Nat) :
    (∃ k, firstClear word left j = some k ∧ k < j + left ∧ word.testBit k = false ∧
      ∀ i, j ≤ i → i < k → word.testBit i = true) ∨
      firstClear word left j = none ∧ ∀ k, j ≤ k → k < j + left → word.testBit k = true := by
  induction left generalizing j with
  | zero => exact .inr ⟨rfl,fun k hlo hhi => by omega⟩
  | succ left ih =>
    rw [firstClear]
    cases hj : word.testBit j with
    | false => exact .inl ⟨j,rfl,by omega,hj,fun i hlo hhi => by omega⟩
    | true =>
      rw [if_pos rfl]
      rcases ih (j + 1) with ⟨k,hk,hlt,hbit,hall⟩ | ⟨hnone,hall⟩
      · refine .inl ⟨k,hk,by omega,hbit,fun i hlo hhi => ?_⟩
        rcases Nat.eq_or_lt_of_le hlo with rfl | hlt
        · exact hj
        · exact hall i hlt hhi
      · refine .inr ⟨hnone,fun k hlo hhi => ?_⟩
        rcases Nat.eq_or_lt_of_le hlo with rfl | hlt
        · exact hj
        · exact hall k hlt (by omega)

theorem full_of_testBit {word : Nat} (hw : word < 2 ^ w)
    (hall : ∀ k, k < w → word.testBit k = true) : word = 2 ^ w - 1 := by
  refine Nat.eq_of_testBit_eq fun k => ?_
  rw [Nat.testBit_two_pow_sub_one]
  by_cases hk : k < w
  · rw [hall k hk,decide_eq_true hk]
  · have hbig : word < 2 ^ k := Nat.lt_of_lt_of_le hw (Nat.pow_le_pow_right (by omega) (by omega))
    rw [Nat.testBit_lt_two_pow hbig,decide_eq_false hk]

theorem scan_spec (hws : ∀ i, ws i < 2 ^ w) (left i : Nat) :
    (scan w ws left i = .full ∧ ∀ k, i ≤ k → k < i + left → ws k = 2 ^ w - 1) ∨
      ∃ k j, scan w ws left i = .found k j ∧ k < i + left ∧ j < w ∧
        (ws k).testBit j = false ∧ ∀ n, i * w ≤ n → n < k * w + j → get w ws n = true := by
  induction left generalizing i with
  | zero => exact .inl ⟨rfl,fun k hlo hhi => by omega⟩
  | succ left ih =>
    rw [scan]
    by_cases hfull : ws i = 2 ^ w - 1
    · rw [if_pos hfull]
      rcases ih (i + 1) with ⟨hnone,hall⟩ | ⟨k,j,hok,hk,hj,hbit,hall⟩
      · refine .inl ⟨hnone,fun k hlo hhi => ?_⟩
        rcases Nat.eq_or_lt_of_le hlo with rfl | hlt
        · exact hfull
        · exact hall k hlt (by omega)
      · refine .inr ⟨k,j,hok,by omega,hj,hbit,fun n hlo hhi => ?_⟩
        by_cases hn : n < (i + 1) * w
        · unfold get
          rw [Nat.div_eq_of_lt_le hlo hn,hfull,Nat.testBit_two_pow_sub_one]
          exact decide_eq_true (Nat.mod_lt _ (Nat.zero_lt_of_lt hj))
        · exact hall n (Nat.le_of_not_lt hn) hhi
    · rw [if_neg hfull]
      rcases firstClear_spec (ws i) w 0 with ⟨j,hj,hlt,hbit,hall⟩ | ⟨-,hall⟩
      · rw [hj]
        refine .inr ⟨i,j,rfl,by omega,by omega,hbit,fun n hlo hhi => ?_⟩
        have hdiv : n / w = i := Nat.div_eq_of_lt_le hlo (by rw [Nat.succ_mul]; omega)
        have hmod := Nat.div_add_mod n w
        unfold get
        rw [hdiv] at hmod ⊢
        refine hall _ (Nat.zero_le _) ?_
        rw [Nat.mul_comm] at hmod
        omega
      · exact absurd (full_of_testBit (hws i) fun k hk => hall k (Nat.zero_le k) (by omega)) hfull

end

section
variable {w : Nat} {ws : Nat → Nat} {i j k : Nat}

theorem index_eq_iff (hj : j < w) : k / w = i ∧ k % w = j ↔ k = i * w + j := by
  constructor
  · rintro ⟨rfl,rfl⟩
    rw [Nat.mul_comm]
    exact (Nat.div_add_mod k w).symm
  · rintro rfl
    have hw : 0 < w := Nat.lt_of_le_of_lt (Nat.zero_le j) hj
    rw [Nat.mul_comm,Nat.mul_add_div hw,Nat.mul_add_mod,Nat.div_eq_of_lt hj,
      Nat.mod_eq_of_lt hj]
    exact ⟨rfl,rfl⟩

theorem get_raise (hj : j < w) :
    get w (raise ws i j) k = (get w ws k || decide (k = i * w + j)) := by
  unfold get raise
  by_cases hword : k / w = i
  · subst hword
    have hbit : j = k % w ↔ k = k / w * w + j := by
      rw [← index_eq_iff hj]
      exact ⟨fun h => ⟨rfl,h.symm⟩,fun h => h.2.symm⟩
    simp [Nat.testBit_or,Nat.testBit_two_pow,← hbit]
  · have hne : k ≠ i * w + j := fun heq => hword ((index_eq_iff hj).mpr heq).1
    simp [update_of_ne hword,hne]

theorem get_lower (hj : j < w) :
    get w (lower w ws i j) k = (get w ws k && decide (k ≠ i * w + j)) := by
  unfold get lower
  by_cases hword : k / w = i
  · subst hword
    have hbit : j = k % w ↔ k = k / w * w + j := by
      rw [← index_eq_iff hj]
      exact ⟨fun h => ⟨rfl,h.symm⟩,fun h => h.2.symm⟩
    have hlt : k % w < w := Nat.mod_lt _ (Nat.lt_of_le_of_lt (Nat.zero_le j) hj)
    simp [Nat.testBit_and,Nat.testBit_xor,Nat.testBit_two_pow,Nat.testBit_two_pow_sub_one,
      ← hbit,hlt]
  · have hne : k ≠ i * w + j := fun heq => hword ((index_eq_iff hj).mpr heq).1
    simp [update_of_ne hword,hne]

theorem get_raise_index (hw : 0 < w) (ws : Nat → Nat) (r k : Nat) :
    get w (raise ws (r / w) (r % w)) k = (get w ws k || decide (k = r)) := by
  rw [get_raise (Nat.mod_lt r hw),Nat.mul_comm,Nat.div_add_mod]

theorem get_lower_index (hw : 0 < w) (ws : Nat → Nat) (r k : Nat) :
    get w (lower w ws (r / w) (r % w)) k = (get w ws k && decide (k ≠ r)) := by
  rw [get_lower (Nat.mod_lt r hw),Nat.mul_comm,Nat.div_add_mod]

theorem raise_lt (hws : ∀ i, ws i < 2 ^ w) (hj : j < w) (k : Nat) : raise ws i j k < 2 ^ w := by
  unfold raise
  by_cases hk : k = i
  · subst hk
    rw [update_self]
    exact Nat.or_lt_two_pow (hws k) (Nat.pow_lt_pow_right (by omega) hj)
  · rw [update_of_ne hk]
    exact hws k

theorem lower_lt (hws : ∀ i, ws i < 2 ^ w) (k : Nat) : lower w ws i j k < 2 ^ w := by
  unfold lower
  by_cases hk : k = i
  · subst hk
    rw [update_self]
    exact Nat.lt_of_le_of_lt Nat.and_le_left (hws k)
  · rw [update_of_ne hk]
    exact hws k

end

end Bits
