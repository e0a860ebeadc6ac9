import Mathlib.Tactic.Common

namespace Simulate

variable {ε ε' α β γ δ : Type}

def Sim (R : α → β → Prop) (p : Except ε α) (q : Except ε' β) : Prop :=
  ∀ a, p = .ok a → ∃ b, q = .ok b ∧ R a b

section
variable {R : α → β → Prop} {S : γ → δ → Prop} {p : Except ε α} {q : Except ε' β}

theorem Sim.ok {a : α} {b : β} (h : R a b) : Sim R (.ok a : Except ε α) (.ok b : Except ε' β) := by
  rintro a' ⟨⟩
  exact ⟨b,rfl,h⟩

theorem Sim.error {e : ε} : Sim R (.error e) q := by
  rintro a ⟨⟩

theorem Sim.refl (p : Except ε α) : Sim (· = ·) p p := fun a h => ⟨a,h,rfl⟩

theorem Sim.bind {f : α → Except ε γ} {g : β → Except ε' δ} (h : Sim R p q)
    (hfg : ∀ a b, R a b → Sim S (f a) (g b)) : Sim S (p >>= f) (q >>= g) := by
  cases p with
  | error e => exact .error
  | ok a =>
    obtain ⟨b,hq,hab⟩ := h a rfl
    rw [hq]
    exact hfg a b hab

theorem Sim.bind_same {f : α → Except ε γ} {g : α → Except ε δ} (p : Except ε α)
    (hfg : ∀ a, Sim S (f a) (g a)) : Sim S (p >>= f) (p >>= g) :=
  (Sim.refl p).bind fun a _ h => h ▸ hfg a

end

end Simulate
