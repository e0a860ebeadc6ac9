import Mathlib.Tactic.Common

namespace Run
variable {S L : Type} (step : S → L → Option S)

def exec : S → List L → Option S
  | s, [] => some s
  | s, l :: ls => (step s l).bind fun t => exec t ls

def Along (P : S → L → Prop) : S → List L → Prop
  | _, [] => True
  | s, l :: ls => P s l ∧ ∀ t, step s l = some t → Along P t ls

def check (p : S → L → Bool) : S → List L → Bool
  | _, [] => true
  | s, l :: ls => p s l && (step s l).all fun t => check p t ls

variable {step}

@[simp] theorem exec_nil (s : S) : exec step s [] = some s := rfl

theorem exec_cons {s t : S} {l : L} {ls : List L} :
    exec step s (l :: ls) = some t ↔ ∃ u, step s l = some u ∧ exec step u ls = some t := by
  simp [exec,Option.bind_eq_some_iff]

theorem along_left {P : S → L → Prop} {s : S} {ls ms : List L}
    (h : Along step P s (ls ++ ms)) : Along step P s ls := by
  induction ls generalizing s with
  | nil => trivial
  | cons l ls ih => exact ⟨h.1,fun t ht => ih (h.2 t ht)⟩

theorem along_mono {P Q : S → L → Prop} (hpq : ∀ s l, P s l → Q s l) {s : S} {ls : List L}
    (h : Along step P s ls) : Along step Q s ls := by
  induction ls generalizing s with
  | nil => trivial
  | cons l ls ih => exact ⟨hpq s l h.1,fun t ht => ih (h.2 t ht)⟩

theorem along_of_check {p : S → L → Bool} {s : S} {ls : List L} (h : check step p s ls = true) :
    Along step (fun s l => p s l = true) s ls := by
  induction ls generalizing s with
  | nil => trivial
  | cons l ls ih =>
    simp only [check,Bool.and_eq_true] at h
    refine ⟨h.1,fun t ht => ih ?_⟩
    simpa [ht] using h.2

theorem along_of_forall {P : L → Prop} {s : S} {ls : List L} (h : ∀ l ∈ ls, P l) :
    Along step (fun _ l => P l) s ls := by
  induction ls generalizing s with
  | nil => trivial
  | cons l ls ih =>
    exact ⟨h l List.mem_cons_self,fun t _ => ih fun l' hl' => h l' (List.mem_cons_of_mem _ hl')⟩

theorem along_and {P Q : S → L → Prop} {s : S} {ls : List L} (hp : Along step P s ls)
    (hq : Along step Q s ls) : Along step (fun s l => P s l ∧ Q s l) s ls := by
  induction ls generalizing s with
  | nil => trivial
  | cons l ls ih => exact ⟨⟨hp.1,hq.1⟩,fun t ht => ih (hp.2 t ht) (hq.2 t ht)⟩

theorem invariant {P : S → L → Prop} {I : S → Prop}
    (hstep : ∀ s l t, I s → P s l → step s l = some t → I t)
    {s t : S} {ls : List L} (hs : I s) (hp : Along step P s ls)
    (he : exec step s ls = some t) : I t := by
  induction ls generalizing s with
  | nil =>
    cases he
    exact hs
  | cons l ls ih =>
    obtain ⟨u,hu,hx⟩ := exec_cons.mp he
    exact ih (hstep s l u hs hp.1 hu) (hp.2 u hu) hx

theorem along_imp {P Q : S → L → Prop} {I : S → Prop}
    (hstep : ∀ s l t, I s → P s l → step s l = some t → I t)
    (hpq : ∀ s l, I s → P s l → Q s l) {s : S} {ls : List L} (hs : I s)
    (h : Along step P s ls) : Along step Q s ls := by
  induction ls generalizing s with
  | nil => trivial
  | cons l ls ih => exact ⟨hpq s l hs h.1,fun t ht => ih (hstep s l t hs h.1 ht) (h.2 t ht)⟩

theorem along_iff {P : S → L → Prop} {I : S → Prop}
    (hstep : ∀ s l, I s → (P s l ↔ ∀ t, step s l = some t → I t)) {s : S} {ls : List L}
    (hs : I s) : Along step P s ls ↔
      ∀ pre post t, ls = pre ++ post → exec step s pre = some t → I t := by
  constructor
  · rintro h pre post t rfl he
    exact invariant (fun s l t hi hp ht => (hstep s l hi).mp hp t ht) hs (along_left h) he
  · intro h
    induction ls generalizing s with
    | nil => trivial
    | cons l ls ih =>
      have hnext : ∀ t, step s l = some t → I t := fun t ht =>
        h [l] ls t rfl (exec_cons.mpr ⟨t,ht,rfl⟩)
      refine ⟨(hstep s l hs).mpr hnext,fun t ht => ih (hnext t ht) fun pre post u he hx => ?_⟩
      exact h (l :: pre) post u (congrArg (l :: ·) he) (exec_cons.mpr ⟨t,ht,hx⟩)

end Run
