import Mathlib.Tactic.Common

variable {O B C : Type}

structure Ledger (used fixed : B → Prop) (p : O → Option B) : Prop where
  used_iff : ∀ b, used b ↔ fixed b ∨ ∃ o, p o = some b
  apart : ∀ o b, p o = some b → ¬ fixed b
  inj : ∀ o o' b, p o = some b → p o' = some b → o = o'

namespace Ledger

open Function
variable {used used' fixed : B → Prop} {p : O → Option B} {o o' : O} {b c : B}

theorem owned (h : Ledger used fixed p) (ho : p o = some b) : used b :=
  (h.used_iff b).mpr (.inr ⟨o,ho⟩)

theorem fresh (h : Ledger used fixed p) (hb : ¬ used b) (o : O) : p o ≠ some b :=
  fun ho => hb (h.owned ho)

theorem reserve (h : Ledger used fixed p) (hb : ¬ used b) (hu : ∀ c, used' c ↔ used c ∨ c = b) :
    Ledger used' (fun c => fixed c ∨ c = b) p := by
  refine ⟨fun c => ?_,fun o c ho hc => ?_,h.inj⟩
  · rw [hu,h.used_iff]
    tauto
  · rcases hc with hc | rfl
    · exact h.apart o c ho hc
    · exact h.fresh hb o ho

theorem shrink {p' : O → Option B} (h : Ledger used fixed p) (h' : Ledger used' fixed p')
    (hsub : ∀ o, p' o = p o ∨ p' o = none) (b : B) :
    used' b ↔ used b ∧ ¬ ∃ o, p o = some b ∧ p' o = none := by
  rw [h'.used_iff,h.used_iff]
  constructor
  · rintro (hf | ⟨o,ho⟩)
    · exact ⟨.inl hf,fun ⟨o,ho,_⟩ => h.apart o b ho hf⟩
    · have hp : p o = some b := by
        rcases hsub o with heq | hnone
        · rw [← heq,ho]
        · rw [hnone] at ho
          cases ho
      refine ⟨.inr ⟨o,hp⟩,fun ⟨o₁,ho₁,hnone⟩ => ?_⟩
      rw [h.inj o₁ o b ho₁ hp,ho] at hnone
      cases hnone
  · rintro ⟨hf | ⟨o,ho⟩,hkeep⟩
    · exact .inl hf
    · refine .inr ⟨o,?_⟩
      rcases hsub o with heq | hnone
      · rw [heq,ho]
      · exact absurd ⟨o,ho,hnone⟩ hkeep

variable [DecidableEq O]

theorem hand (h : Ledger used (fun c => fixed c ∨ c = b) p) (hb : ¬ fixed b) (ho : p o = none) :
    Ledger used fixed (Function.update p o (some b)) := by
  have hfree (o' : O) : p o' ≠ some b := fun ho' => h.apart o' b ho' (.inr rfl)
  have hkeep {o' : O} {c : B} : update p o (some b) o' = some c ↔
      p o' = some c ∨ o' = o ∧ c = b := by
    by_cases heq : o' = o
    · subst heq
      rw [update_self,ho]
      simp [eq_comm]
    · rw [update_of_ne heq]
      simp [heq]
  refine ⟨fun c => ?_,fun o' c hc => ?_,fun o₁ o₂ c h₁ h₂ => ?_⟩
  · rw [h.used_iff]
    simp only [hkeep]
    constructor
    · rintro ((hc | rfl) | ⟨o',ho'⟩)
      · exact .inl hc
      · exact .inr ⟨o,.inr ⟨rfl,rfl⟩⟩
      · exact .inr ⟨o',.inl ho'⟩
    · rintro (hc | ⟨o',ho' | ⟨-,rfl⟩⟩)
      · exact .inl (.inl hc)
      · exact .inr ⟨o',ho'⟩
      · exact .inl (.inr rfl)
  · rcases hkeep.mp hc with hc | ⟨-,rfl⟩
    · exact fun hf => h.apart o' c hc (.inl hf)
    · exact hb
  · rcases hkeep.mp h₁ with hp₁ | ⟨ho₁,hc⟩
    · rcases hkeep.mp h₂ with hp₂ | ⟨-,hc⟩
      · exact h.inj o₁ o₂ c hp₁ hp₂
      · exact absurd (hc ▸ hp₁) (hfree o₁)
    · rcases hkeep.mp h₂ with hp₂ | ⟨ho₂,-⟩
      · exact absurd (hc ▸ hp₂) (hfree o₂)
      · exact ho₁.trans ho₂.symm

theorem take (h : Ledger used fixed p) (hb : ¬ used b) (ho : p o = none)
    (hu : ∀ c, used' c ↔ used c ∨ c = b) : Ledger used' fixed (Function.update p o (some b)) :=
  (h.reserve hb hu).hand (fun hf => hb ((h.used_iff b).mpr (.inl hf))) ho

theorem drop (h : Ledger used fixed p) (ho : p o = some b) (hu : ∀ c, used' c ↔ used c ∧ c ≠ b) :
    Ledger used' fixed (Function.update p o none) := by
  have hkeep {o' : O} {c : B} : update p o none o' = some c ↔ p o' = some c ∧ c ≠ b := by
    by_cases heq : o' = o
    · subst heq
      rw [update_self,ho]
      simp only [reduceCtorEq,Option.some.injEq,false_iff,not_and,not_not]
      exact Eq.symm
    · rw [update_of_ne heq]
      refine ⟨fun hc => ⟨hc,?_⟩,And.left⟩
      rintro rfl
      exact heq (h.inj o' o c hc ho)
  refine ⟨fun c => ?_,fun o' c hc => h.apart o' c (hkeep.mp hc).1,
    fun o₁ o₂ c h₁ h₂ => h.inj o₁ o₂ c (hkeep.mp h₁).1 (hkeep.mp h₂).1⟩
  rw [hu,h.used_iff]
  simp only [hkeep]
  constructor
  · rintro ⟨hc | ⟨o',ho'⟩,hne⟩
    · exact .inl hc
    · exact .inr ⟨o',ho',hne⟩
  · rintro (hc | ⟨o',ho',hne⟩)
    · refine ⟨.inl hc,?_⟩
      rintro rfl
      exact h.apart o c ho hc
    · exact ⟨.inr ⟨o',ho'⟩,hne⟩

end Ledger

namespace Ledger

open Function
variable {p : O → Option B} {disk : B → C} {zero : C} {o : O} {b : B}

def cell (zero : C) (p : O → Option B) (disk : B → C) (o : O) : C := (p o).elim zero disk

theorem cell_of_none (ho : p o = none) : cell zero p disk o = zero := by
  rw [cell,ho,Option.elim_none]

theorem cell_of_some (ho : p o = some b) : cell zero p disk o = disk b := by
  rw [cell,ho,Option.elim_some]

theorem cell_hand [DecidableEq O] (ho : p o = none) (hz : disk b = zero) :
    cell zero (Function.update p o (some b)) disk = cell zero p disk := by
  funext o'
  by_cases heq : o' = o
  · subst heq
    rw [cell_of_none ho,cell_of_some (update_self ..),hz]
  · unfold cell
    rw [update_of_ne heq]

variable [DecidableEq B]

theorem cell_unowned (c : C) (hb : ∀ o, p o ≠ some b) :
    cell zero p (Function.update disk b c) = cell zero p disk := by
  funext o
  cases ho : p o with
  | none => rw [cell_of_none ho,cell_of_none ho]
  | some b' =>
    have hne : b' ≠ b := fun heq => hb o (heq ▸ ho)
    rw [cell_of_some ho,cell_of_some ho,update_of_ne hne]

theorem cell_write [DecidableEq O] (c : C) (hinj : ∀ o', p o' = some b → o' = o) (ho : p o = some b) :
    cell zero p (Function.update disk b c) = Function.update (cell zero p disk) o c := by
  funext o'
  by_cases heq : o' = o
  · subst heq
    rw [cell_of_some ho,update_self,update_self]
  · rw [update_of_ne heq]
    cases ho' : p o' with
    | none => rw [cell_of_none ho',cell_of_none ho']
    | some b' =>
      have hne : b' ≠ b := fun hb => heq (hinj o' (hb ▸ ho'))
      rw [cell_of_some ho',cell_of_some ho',update_of_ne hne]

end Ledger
