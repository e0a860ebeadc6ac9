import Mathlib.Algebra.BigOperators.Group.Finset.Piecewise
import Mathlib.Algebra.Order.BigOperators.Group.Finset

namespace Tally

variable {ι α : Type*} [Fintype ι] {p : ι → α → Bool} {f : ι → α}

def count (p : ι → α → Bool) (f : ι → α) : Nat :=
  (Finset.univ.filter fun i => p i (f i) = true).card

theorem count_eq_sum : count p f = ∑ i, (p i (f i)).toNat := by
  rw [count,Finset.card_filter]
  refine Finset.sum_congr rfl fun i _ => ?_
  cases p i (f i) <;> rfl

theorem count_eq_zero : count p f = 0 ↔ ∀ i, p i (f i) = false := by
  simp [count,Finset.filter_eq_empty_iff]

theorem exists_of_count_pos (h : 0 < count p f) : ∃ i, p i (f i) = true := by
  by_contra hno
  exact h.ne' (count_eq_zero.mpr fun i => Bool.eq_false_iff.mpr fun hi => hno ⟨i,hi⟩)

theorem eq_of_count_le_one (h : count p f ≤ 1) {i j : ι} (hi : p i (f i) = true)
    (hj : p j (f j) = true) : i = j :=
  Finset.card_le_one.mp h i (by simpa using hi) j (by simpa using hj)

theorem card_le_count {κ : Type*} [Fintype κ] {g : κ → ι} (hg : Function.Injective g)
    (h : ∀ k, p (g k) (f (g k)) = true) : Fintype.card κ ≤ count p f := by
  classical
  rw [← Finset.card_univ,← Finset.card_image_of_injective Finset.univ hg]
  refine Finset.card_le_card fun i hi => ?_
  obtain ⟨k,-,rfl⟩ := Finset.mem_image.mp hi
  exact Finset.mem_filter.mpr ⟨Finset.mem_univ _,h k⟩

theorem count_update [DecidableEq ι] (c : ι) (a : α) :
    count p (Function.update f c a) + (p c (f c)).toNat = count p f + (p c a).toNat := by
  have hrest : ∑ i ∈ Finset.univ.erase c, (p i (Function.update f c a i)).toNat =
      ∑ i ∈ Finset.univ.erase c, (p i (f i)).toNat :=
    Finset.sum_congr rfl fun i hi => by rw [Function.update_of_ne (Finset.ne_of_mem_erase hi)]
  rw [count_eq_sum,count_eq_sum,← Finset.add_sum_erase _ _ (Finset.mem_univ c),hrest,
    ← Finset.add_sum_erase _ _ (Finset.mem_univ c),Function.update_self]
  omega

end Tally
