import Mathlib.Tactic.Common

namespace Layout
variable {α : Type} (len : α → Nat)

def span : List α → Nat
  | [] => 0
  | b :: bs => len b + span bs

def At : Nat → List α → Nat → α → Prop
  | _, [], _, _ => False
  | base, c :: cs, a, b => (a = base ∧ b = c) ∨ At (base + len c) cs a b

variable {len} {base a a' : Nat} {b b' c : α} {xs ys bs : List α}

@[simp] theorem span_nil : span len [] = 0 := rfl

@[simp] theorem span_cons : span len (b :: bs) = len b + span len bs := rfl

@[simp] theorem span_append : span len (xs ++ ys) = span len xs + span len ys := by
  induction xs with
  | nil => simp
  | cons x xs ih => simp [ih,Nat.add_assoc]

@[simp] theorem at_nil : ¬ At len base [] a b := id

theorem at_cons : At len base (c :: bs) a b ↔ (a = base ∧ b = c) ∨ At len (base + len c) bs a b :=
  Iff.rfl

theorem at_append : At len base (xs ++ ys) a b ↔
    At len base xs a b ∨ At len (base + span len xs) ys a b := by
  induction xs generalizing base with
  | nil => simp
  | cons x xs ih => simp only [List.cons_append,at_cons,ih,span_cons,or_assoc,Nat.add_assoc]

theorem at_bounds (h : At len base bs a b) : base ≤ a ∧ a + len b ≤ base + span len bs := by
  induction bs generalizing base with
  | nil => exact absurd h at_nil
  | cons c cs ih =>
    rcases h with ⟨rfl,rfl⟩ | h
    · simp
    · have := ih h
      simp only [span_cons]
      omega

theorem at_split : At len base bs a b ↔ ∃ xs ys, bs = xs ++ b :: ys ∧ a = base + span len xs := by
  constructor
  · intro h
    induction bs generalizing base with
    | nil => exact absurd h at_nil
    | cons c cs ih =>
      rcases h with ⟨rfl,rfl⟩ | h
      · exact ⟨[],cs,rfl,rfl⟩
      · obtain ⟨xs,ys,rfl,rfl⟩ := ih h
        exact ⟨c :: xs,ys,rfl,by rw [span_cons,Nat.add_assoc]⟩
  · rintro ⟨xs,ys,rfl,rfl⟩
    exact at_append.mpr (.inr (.inl ⟨rfl,rfl⟩))

theorem at_disjoint (h : At len base bs a b) (h' : At len base bs a' b') :
    (a = a' ∧ b = b') ∨ a + len b ≤ a' ∨ a' + len b' ≤ a := by
  induction bs generalizing base with
  | nil => exact absurd h at_nil
  | cons c cs ih =>
    rcases h with ⟨rfl,rfl⟩ | h <;> rcases h' with ⟨rfl,rfl⟩ | h'
    · exact .inl ⟨rfl,rfl⟩
    · exact .inr (.inl (at_bounds h').1)
    · exact .inr (.inr (at_bounds h).1)
    · exact ih h h'

end Layout
