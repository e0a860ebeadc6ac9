import OS161.Kern

namespace OS161.Thread

structure Arr where
  guys : List Nat
  max : Nat
  deriving DecidableEq, Repr

namespace Arr

def growMax : Nat → Nat → Nat → Nat
  | 0, newmax, _ => newmax
  | fuel + 1, newmax, nguys =>
    if newmax < nguys then growMax fuel ((newmax + 1) * 2) nguys else newmax

def preallocate (mem : Bool) (a : Arr) (nguys : Nat) : Kern (Option Arr) := do
  assert (a.guys.length ≤ a.max) "a->num >=0 && a->num <= a->max"
  pure (if mem then some { a with max := growMax nguys a.max nguys } else none)

-- What a cell holds that setsize has just uncovered is up to kmalloc; array_add writes it next.
def resize (a : Arr) (nguys : Nat) : Arr :=
  { a with guys := a.guys.take nguys ++ List.replicate (nguys - a.guys.length) 0 }

def setsize (mem : Bool) (a : Arr) (nguys : Nat) : Kern (Option Arr) := do
  assert (a.guys.length ≤ a.max) "a->num >=0 && a->num <= a->max"
  if a.max < nguys then do
    let grown ← a.preallocate mem nguys
    pure (grown.map fun a => a.resize nguys)
  else if nguys = 0 ∧ 16 < a.max then pure (some ⟨[], 0⟩)
  else pure (some (a.resize nguys))

def add (mem : Bool) (a : Arr) (guy : Nat) : Kern (Option Arr) := do
  let sized ← a.setsize mem (a.guys.length + 1)
  pure (sized.map fun b => { b with guys := b.guys.set a.guys.length guy })

variable {a b : Arr} {mem : Bool} {n guy : Nat}

theorem growMax_ge (nguys : Nat) : ∀ fuel newmax, nguys ≤ newmax + fuel →
    nguys ≤ growMax fuel newmax nguys ∧ newmax ≤ growMax fuel newmax nguys := by
  intro fuel
  induction fuel with
  | zero => exact fun newmax h => ⟨h,Nat.le_refl newmax⟩
  | succ fuel ih =>
    intro newmax h
    unfold growMax
    by_cases hlt : newmax < nguys
    · rw [if_pos hlt]
      obtain ⟨hge,hmono⟩ := ih ((newmax + 1) * 2) (by omega)
      exact ⟨hge,by omega⟩
    · rw [if_neg hlt]
      exact ⟨by omega,Nat.le_refl newmax⟩

theorem preallocate_eq (h : a.guys.length ≤ a.max) (mem : Bool) (n : Nat) :
    a.preallocate mem n =
      .ok (if mem then some { a with max := growMax n a.max n } else none) := by
  unfold preallocate
  rw [assert_of (by simpa using h),ok_bind]
  rfl

theorem preallocate_some (hp : a.preallocate mem n = .ok (some b)) :
    b.guys = a.guys ∧ n ≤ b.max ∧ a.max ≤ b.max := by
  have hp := Except.ok.inj (assert_bind_ok hp).2
  cases mem with
  | false => cases hp
  | true =>
    cases hp
    exact ⟨rfl,growMax_ge n n a.max (by omega)⟩

theorem resize_succ (a : Arr) (guy : Nat) :
    (a.resize (a.guys.length + 1)).guys.set a.guys.length guy = a.guys ++ [guy] := by
  have htake : a.guys.take (a.guys.length + 1) = a.guys := List.take_of_length_le (by omega)
  simp [resize,htake]

theorem add_room (hroom : a.guys.length < a.max) (mem : Bool) (guy : Nat) :
    a.add mem guy = .ok (some { a with guys := a.guys ++ [guy] }) := by
  have hle : decide (a.guys.length ≤ a.max) = true := by simp; omega
  unfold add setsize
  rw [assert_of hle,ok_bind,if_neg (by omega),if_neg (by omega)]
  show Except.ok (some (Arr.mk ((a.resize _).guys.set a.guys.length guy) a.max)) = _
  rw [resize_succ]

theorem add_some (ha : a.add mem guy = .ok (some b)) :
    b.guys = a.guys ++ [guy] ∧ b.guys.length ≤ b.max ∧ a.max ≤ b.max := by
  obtain ⟨r,hr,-⟩ := bind_ok ha
  have h : a.guys.length ≤ a.max := of_decide_eq_true (assert_bind_ok hr).1
  by_cases hroom : a.guys.length < a.max
  · rw [add_room hroom] at ha
    cases ha
    exact ⟨rfl,by simp; omega,Nat.le_refl _⟩
  · have hle : decide (a.guys.length ≤ a.max) = true := by simpa using h
    unfold add setsize at ha
    rw [assert_of hle,ok_bind,if_pos (by omega),preallocate_eq h] at ha
    cases mem with
    | false => cases ha
    | true =>
      cases ha
      have hge := growMax_ge (a.guys.length + 1) (a.guys.length + 1) a.max (by omega)
      refine ⟨resize_succ { a with max := _ } guy,?_,hge.2⟩
      simp only [resize,List.length_set,List.length_append,List.length_take,
        List.length_replicate]
      omega

theorem setsize_zero (h : a.guys.length ≤ a.max) (mem : Bool) :
    a.setsize mem 0 = .ok (some ⟨[], if 16 < a.max then 0 else a.max⟩) := by
  unfold setsize
  rw [assert_of (by simpa using h),ok_bind,if_neg (by omega)]
  by_cases hbig : 16 < a.max
  · rw [if_pos ⟨rfl,hbig⟩,if_pos hbig]
    rfl
  · rw [if_neg (fun hc => hbig hc.2),if_neg hbig]
    simp [resize]
    rfl

end Arr

end OS161.Thread
