import OS161.Thread.Queue

namespace OS161.Thread.Queue

inductive Op where
  | addtail (mem : Bool) (ptr : Nat)
  | remhead
  | preallocate (mem : Bool) (size : Nat)
  | empty

inductive Reply where
  | done
  | enomem
  | ptr (p : Nat)
  | flag (b : Bool)
  deriving DecidableEq

def Op.run (q : Queue) : Op → Kern (Reply × Queue)
  | .addtail mem ptr => do
    match ← q.addtail offT mem ptr with
    | none => .ok (.enomem, q)
    | some q => .ok (.done, q)
  | .remhead => do
    let (ptr, q) ← q.remhead
    .ok (.ptr ptr, q)
  | .preallocate mem size => do
    match ← q.preallocate offT mem size with
    | none => .ok (.enomem, q)
    | some q => .ok (.done, q)
  | .empty => .ok (.flag q.isEmpty, q)

def Op.Ideal (l : List Nat) (r : Reply) (l' : List Nat) : Op → Prop
  | .addtail mem ptr => (r = .done ∧ l' = l ++ [ptr]) ∨ (mem = false ∧ r = .enomem ∧ l' = l)
  | .remhead => ∃ ptr, l = ptr :: l' ∧ r = .ptr ptr
  | .preallocate mem _ => (r = .done ∨ mem = false ∧ r = .enomem) ∧ l' = l
  | .empty => r = .flag (decide (l = [])) ∧ l' = l

def Op.Allowed (q : Queue) (l : List Nat) : Op → Prop
  | .remhead => l ≠ []
  | .preallocate _ size => q.size ≤ 2 ^ 28 ∧ size ≤ 2 ^ 28
  | _ => q.size ≤ 2 ^ 28

def Behaves : List Op → Queue → List Nat → Prop
  | [], _, _ => True
  | o :: ops, q, l => o.Allowed q l → ∃ r q' l', o.run q = .ok (r, q') ∧ o.Ideal l r l' ∧
    q'.toList = l' ∧ q'.nextread < q'.size ∧ q'.nextwrite < q'.size ∧ Behaves ops q' l'

variable {q : Queue} {l : List Nat}

theorem Op.step (h : q.Holds l) (o : Op) (ha : o.Allowed q l) :
    ∃ r q' l', o.run q = .ok (r,q') ∧ o.Ideal l r l' ∧ q'.Holds l' := by
  cases o with
  | addtail mem ptr =>
    obtain ⟨q',hq',-,-,hadd⟩ := addtail_spec h (exact_offT (Nat.succ_le_succ ha)) ptr
    dsimp only [Op.run]
    rw [hadd,ok_bind]
    by_cases hroom : mem = true ∨ l.length + 1 < q.size
    · rw [if_pos hroom]
      exact ⟨_,_,_,rfl,.inl ⟨rfl,rfl⟩,hq'⟩
    · rw [if_neg hroom]
      exact ⟨_,_,_,rfl,.inr ⟨by simpa using fun hm => hroom (.inl hm),rfl,rfl⟩,h⟩
  | remhead =>
    obtain ⟨a,l',rfl⟩ := List.exists_cons_of_ne_nil ha
    obtain ⟨q',hrem,hq'⟩ := remhead_spec h
    unfold Op.run
    rw [hrem]
    exact ⟨_,_,_,rfl,⟨a,rfl,rfl⟩,hq'⟩
  | preallocate mem size =>
    obtain ⟨q',hq',-,-,hpre⟩ := preallocate_spec h (exact_offT (Nat.le_succ_of_le ha.2))
    dsimp only [Op.run]
    rw [hpre,ok_bind]
    by_cases hroom : mem = true ∨ size ≤ q.size
    · rw [if_pos hroom]
      exact ⟨_,_,_,rfl,⟨.inl rfl,rfl⟩,hq'⟩
    · rw [if_neg hroom]
      exact ⟨_,_,_,rfl,⟨.inr ⟨by simpa using fun hm => hroom (.inl hm),rfl⟩,rfl⟩,h⟩
  | empty =>
    have hflag : q.isEmpty = decide (l = []) := by
      rw [Bool.eq_iff_iff,h.isEmpty_iff,decide_eq_true_iff]
    exact ⟨_,_,_,rfl,⟨by rw [hflag],rfl⟩,h⟩

theorem behaves_of_holds (ops : List Op) : ∀ q l, q.Holds l → Behaves ops q l := by
  induction ops with
  | nil => exact fun _ _ _ => trivial
  | cons o ops ih =>
    intro q l h ha
    obtain ⟨r,q',l',hrun,hideal,hq'⟩ := o.step h ha
    have hwrites : q'.nextwrite < q'.size := by
      rw [hq'.writes]
      exact Nat.mod_lt _ hq'.size_pos
    exact ⟨r,q',l',hrun,hideal,hq'.toList_eq,hq'.reads,hwrites,ih q' l' hq'⟩

theorem run_queue_is_fifo (size : Nat) (hsize : 1 ≤ size) (ops : List Op) :
    Behaves ops (create size) [] := behaves_of_holds ops _ _ (create_holds hsize)

theorem run_queue_is_fifo_growing :
    Behaves [.addtail true 5,.preallocate false 9,.addtail false 6,.remhead,.empty] (create 1) [] :=
  run_queue_is_fifo 1 (by decide) _

end OS161.Thread.Queue
