import Mathlib.Tactic.Common

namespace Holding

variable {F O : Type*} {own : F → Option O} {p : F → Prop} {q : O → Prop} {o o' : O} {i : F}

open Classical in
noncomputable def grant (own : F → Option O) (o : O) (p : F → Prop) : F → Option O :=
  fun i => if p i then some o else own i

open Classical in
noncomputable def release (own : F → Option O) (q : O → Prop) : F → Option O :=
  fun i => if ∃ o, own i = some o ∧ q o then none else own i

def Represents (own : F → Option O) (owns : O → F → Prop) : Prop :=
  ∀ o i, owns o i ↔ own i = some o

theorem grant_of_pos (h : p i) : grant own o p i = some o := if_pos h

theorem grant_of_neg (h : ¬ p i) : grant own o p i = own i := if_neg h

theorem grant_eq_some :
    grant own o p i = some o' ↔ (p i ∧ o' = o) ∨ (¬ p i ∧ own i = some o') := by
  by_cases h : p i
  · simp [grant_of_pos h,h,eq_comm]
  · simp [grant_of_neg h,h]

theorem grant_eq_none : grant own o p i = none ↔ ¬ p i ∧ own i = none := by
  by_cases h : p i
  · simp [grant_of_pos h,h]
  · simp [grant_of_neg h,h]

theorem release_eq_some : release own q i = some o ↔ own i = some o ∧ ¬ q o := by
  unfold release
  split
  case isTrue h =>
    obtain ⟨o',ho',hq⟩ := h
    simp only [reduceCtorEq,false_iff,not_and,not_not]
    intro ho
    rw [ho',Option.some_inj] at ho
    exact ho ▸ hq
  case isFalse h =>
    exact ⟨fun ho => ⟨ho,fun hq => h ⟨o,ho,hq⟩⟩,fun ho => ho.1⟩

theorem release_eq_none : release own q i = none ↔ ∀ o, own i = some o → q o := by
  cases hi : own i with
  | none => simp [release,hi]
  | some o => simp [release,hi]

theorem release_false : release own (fun _ => False) = own := by
  funext i
  simp [release]

section
variable {owns : O → F → Prop} (h : Represents own owns)
include h

theorem Represents.unique (ho : owns o i) (ho' : owns o' i) : o = o' :=
  Option.some_inj.mp (((h o i).mp ho).symm.trans ((h o' i).mp ho'))

theorem Represents.existsUnique_iff : (∃! o, owns o i) ↔ own i ≠ none := by
  constructor
  · rintro ⟨o,ho,-⟩ hn
    rw [(h o i).mp ho] at hn
    exact Option.some_ne_none o hn
  · intro hn
    obtain ⟨o,ho⟩ := Option.ne_none_iff_exists'.mp hn
    exact ⟨o,(h o i).mpr ho,fun o' ho' => h.unique ho' ((h o i).mpr ho)⟩

end

end Holding
