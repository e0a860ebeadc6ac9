import Mathlib.Data.List.Basic

namespace Oracle

class Feed (S : Type) (A : outParam Type) where
  answers : S → List A
  put : S → List A → S

class Holds (S β : Type) where
  get : β → S
  set : β → S → β
  get_set : ∀ b s, get (set b s) = s
  set_get : ∀ b, set b (get b) = b
  set_set : ∀ b s s', set (set b s) s' = set b s'

open Feed Holds

section
variable {S α β : Type}

instance (priority := low) : Holds S S :=
  ⟨id,fun _ s => s,fun _ _ => rfl,fun _ => rfl,fun _ _ _ => rfl⟩

instance : Holds S (S × β) :=
  ⟨Prod.fst,fun b s => (s,b.2),fun _ _ => rfl,fun _ => rfl,fun _ _ _ => rfl⟩

instance (priority := low) [Holds S β] : Holds S (α × β) where
  get b := get b.2
  set b s := (b.1,set b.2 s)
  get_set b s := get_set b.2 s
  set_get b := congrArg (Prod.mk b.1) (set_get b.2)
  set_set b s s' := congrArg (Prod.mk b.1) (set_set b.2 s s')

end

variable {S A ε β γ : Type} [Feed S A] [Holds S β] [Holds S γ]

-- A run is settled by the answers it takes: any others may stand behind them.
def Frugal (f : S → Except ε β) : Prop :=
  ∀ s out, f s = .ok out → ∃ used, answers s = used ++ answers (get out : S) ∧
    ∀ rest, f (put s (used ++ rest)) = .ok (set out (put (get out : S) rest))

theorem Frugal.ok {f : S → β} (hget : ∀ s, get (f s) = s) (hset : ∀ s s', set (f s) s' = f s') :
    Frugal (fun s => (.ok (f s) : Except ε β)) := by
  rintro s out ⟨⟩
  refine ⟨[],by rw [hget]; rfl,fun rest => ?_⟩
  rw [hget,hset]
  rfl

theorem Frugal.error (e : ε) : Frugal (fun _ => (.error e : Except ε β) : S → Except ε β) := by
  rintro s out ⟨⟩

theorem Frugal.bind {f : S → Except ε β} {g : β → Except ε γ} (hf : Frugal f)
    (hg : ∀ b, Frugal fun s : S => g (set b s)) : Frugal fun s => f s >>= g := by
  intro s out h
  dsimp only at h ⊢
  cases hrun : f s with
  | error e =>
    rw [hrun] at h
    cases h
  | ok b =>
    rw [hrun] at h
    obtain ⟨used,hused,hrest⟩ := hf s b hrun
    obtain ⟨used',hused',hrest'⟩ := hg b (get b) out (by dsimp only; rw [set_get]; exact h)
    refine ⟨used ++ used',by rw [hused,hused',List.append_assoc],fun rest => ?_⟩
    rw [List.append_assoc,hrest]
    exact hrest' rest

theorem Frugal.bind_reads {δ : Type} {p : S → Except ε δ} {g : δ → S → Except ε γ}
    (hp : ∀ s (l : List A), p (put s l) = p s) (hg : ∀ c, Frugal (g c)) :
    Frugal fun s => p s >>= (g · s) := by
  intro s out h
  dsimp only at h ⊢
  cases hrun : p s with
  | error e =>
    rw [hrun] at h
    cases h
  | ok c =>
    rw [hrun] at h
    obtain ⟨used,hused,hrest⟩ := hg c s out h
    refine ⟨used,hused,fun rest => ?_⟩
    rw [hp,hrun]
    exact hrest rest

theorem Frugal.comp {f : S → Except ε β} {m : S → S} (hf : Frugal f)
    (hm : ∀ s, answers (m s) = answers s) (hput : ∀ s l, m (put s l) = put (m s) l) :
    Frugal fun s => f (m s) := by
  intro s out h
  obtain ⟨used,hused,hrest⟩ := hf (m s) out h
  refine ⟨used,(hm s).symm.trans hused,fun rest => ?_⟩
  dsimp only
  rw [hput,hrest]

end Oracle
