namespace Refine

variable {S A O R E : Type} (run : O → S → Except E (R × S)) (allowed : O → A → Prop)
  (ideal : O → A → R → A → Prop)

def Behaves : List O → S → A → Prop
  | [], _, _ => True
  | o :: ops, s, a => allowed o a →
    ∃ r s' a', run o s = .ok (r, s') ∧ ideal o a r a' ∧ Behaves ops s' a'

variable {run allowed ideal}

theorem behaves_of_step {I : S → A → Prop} (hstep : ∀ o s a, I s a → allowed o a →
      ∃ r s' a', run o s = .ok (r, s') ∧ ideal o a r a' ∧ I s' a')
    (ops : List O) {s : S} {a : A} (hs : I s a) : Behaves run allowed ideal ops s a := by
  induction ops generalizing s a with
  | nil => trivial
  | cons o ops ih =>
    intro ho
    obtain ⟨r,s',a',hrun,hideal,hs'⟩ := hstep o s a hs ho
    exact ⟨r,s',a',hrun,hideal,ih hs'⟩

end Refine
