import OS161.Kheap.Pages

namespace OS161.Kheap

section

def Heap.take (h : Heap) (r : Nat) : Heap :=
  { h with inuse := Bits.raise h.inuse (r / 32) (r % 32) }

def Heap.drop (h : Heap) (r : Nat) : Heap :=
  { h with inuse := Bits.lower 32 h.inuse (r / 32) (r % 32) }

variable {h : Heap} {r s : Nat}

theorem refUsed_take : (h.take r).refUsed s = (h.refUsed s || decide (s = r)) :=
  Bits.get_raise_index (by decide) h.inuse r s

theorem refUsed_drop : (h.drop r).refUsed s = (h.refUsed s && decide (s ≠ r)) :=
  Bits.get_lower_index (by decide) h.inuse r s

theorem words_take (hw : ∀ i, h.inuse i < 2 ^ 32) (i : Nat) : (h.take r).inuse i < 2 ^ 32 :=
  Bits.raise_lt hw (Nat.mod_lt r (by decide)) i

theorem words_drop (hw : ∀ i, h.inuse i < 2 ^ 32) (i : Nat) : (h.drop r).inuse i < 2 ^ 32 :=
  Bits.lower_lt hw i

theorem allocpageref_spec (hw : ∀ i, h.inuse i < 2 ^ 32) :
    allocpageref h = .ok none ∨ ∃ r, allocpageref h = .ok (some (r, h.take r)) ∧
      r < npagerefs ∧ h.refUsed r = false := by
  unfold allocpageref
  rcases Bits.scan_spec hw inuseWords 0 with ⟨hfull,-⟩ | ⟨i,j,hok,hi,hj,hbit,-⟩
  · rw [hfull]
    exact .inl rfl
  · unfold inuseWords at hi
    have hdiv : (i * 32 + j) / 32 = i := by omega
    have hmod : (i * 32 + j) % 32 = j := by omega
    refine .inr ⟨i * 32 + j,?_,by unfold npagerefs; omega,?_⟩
    · rw [hok]
      unfold Heap.take
      rw [hdiv,hmod]
    · unfold Heap.refUsed Bits.get
      rw [hdiv,hmod,hbit]

theorem freepageref_spec (hr : r < npagerefs) (hused : h.refUsed r = true) :
    freepageref h r = .ok (h.drop r) := by
  unfold freepageref
  unfold Heap.refUsed Bits.get at hused
  rw [assert_of (decide_eq_true hr),assert_of hused]
  rfl

end

end OS161.Kheap
