import OS161.Thread.Model

namespace OS161.Thread

def wakes (p : Nat → Bool) (single : Bool) (l : List Nat) : List Nat :=
  if single then (l.find? p).toList else l.filter p

def stays (p : Nat → Bool) (single : Bool) (l : List Nat) : List Nat :=
  if single then l.eraseP p else l.filter fun t => !p t

section
variable {p : Nat → Bool} {single : Bool} {t : Nat} {l : List Nat}

theorem wakes_nil : wakes p single [] = [] := by
  cases single <;> rfl

theorem stays_nil : stays p single [] = [] := by
  cases single <;> rfl

theorem wakes_of_not (h : p t = false) : wakes p single (t :: l) = wakes p single l := by
  cases single <;> simp [wakes,h]

theorem stays_of_not (h : p t = false) : stays p single (t :: l) = t :: stays p single l := by
  cases single <;> simp [stays,h]

theorem wakes_append_stays_perm : (wakes p single l ++ stays p single l).Perm l := by
  induction l with
  | nil => cases single <;> simp [wakes,stays]
  | cons t l ih =>
    cases h : p t with
    | false =>
      rw [wakes_of_not h,stays_of_not h]
      exact List.perm_middle.trans (ih.cons t)
    | true =>
      cases single with
      | true => simp [wakes,stays,h]
      | false =>
        simp only [wakes,stays,Bool.false_eq_true,if_false,List.filter_cons,h,if_true,
          Bool.not_true,List.cons_append] at ih ⊢
        exact ih.cons t

theorem mem_of_mem_wakes (h : t ∈ wakes p single l) : t ∈ l ∧ p t = true := by
  cases single with
  | true =>
    simp only [wakes,if_true,Option.mem_toList] at h
    exact ⟨List.mem_of_find?_eq_some h,List.find?_some h⟩
  | false => simpa [wakes] using h

end

theorem assertDone_ok {α : Type} {r : Option α} {a : α} (h : assertDone r = .ok a) :
    r = some a := by
  cases r with
  | none => cases h
  | some b =>
    cases h
    rfl

namespace Sys
variable {s s' : Sys} {rq : List Nat} {mem : Bool} {t n addr : Nat} {single : Bool}

theorem makeRunnable_some (hq : s.runqueue.Holds rq) (h : s.makeRunnable mem t = .ok (some s')) :
    ∃ q : Queue, q.Holds (rq ++ [t]) ∧ s.runqueue.size ≤ q.size ∧
      s' = { s with runqueue := q, entered := s.entered ++ [t] } := by
  obtain ⟨q,hq',hsize,-,hadd⟩ := Queue.addtail_spec hq (Queue.exact_id _) t
  have h := (assert_bind_ok h).2
  rw [hadd,ok_bind] at h
  split at h
  · cases h
    exact ⟨q,hq',hsize,rfl⟩
  · cases h

theorem schedulerPreallocate_some (hq : s.runqueue.Holds rq)
    (h : s.schedulerPreallocate mem n = .ok (some s')) :
    ∃ q : Queue, q.Holds rq ∧ n ≤ q.size ∧ s.runqueue.size ≤ q.size ∧
      s' = { s with runqueue := q } := by
  obtain ⟨q,hq',hn,hsize,hpre⟩ := Queue.preallocate_spec hq (Queue.exact_id n)
  have h := (assert_bind_ok h).2
  rw [hpre,ok_bind] at h
  split at h
  · cases h
    exact ⟨q,hq',hn,hsize,rfl⟩
  · cases h

def sleepsOn (sleepaddr : Nat → Option Nat) (addr t : Nat) : Bool :=
  decide (sleepaddr t = some addr)

def requeue (s : Sys) (sleepers runnable : List Nat) (q : Queue) : Sys :=
  { s with runqueue := q, sleepers := sleepers, entered := s.entered ++ runnable }

def woken (s : Sys) (addr : Nat) (single : Bool) : List Nat :=
  wakes (sleepsOn s.sleepaddr addr) single s.sleepers

def asleep (s : Sys) (addr : Nat) (single : Bool) : List Nat :=
  stays (sleepsOn s.sleepaddr addr) single s.sleepers

theorem wakeupLoop_eq : ∀ (rest skipped rq : List Nat) (fuel : Nat)
    (s : Sys), s.sleepers = skipped ++ rest → rest.length ≤ fuel → 0 < s.curspl →
    s.runqueue.Holds rq →
    wakeupLoop mem addr single fuel skipped.length s = (do
      let q ← assertDone (← s.runqueue.addtails mem (wakes (sleepsOn s.sleepaddr addr) single rest))
      pure (s.requeue (skipped ++ stays (sleepsOn s.sleepaddr addr) single rest)
        (wakes (sleepsOn s.sleepaddr addr) single rest) q)) := by
  intro rest
  induction rest with
  | nil =>
    intro skipped rq fuel s hs _ _ hq
    rw [wakes_nil,stays_nil,← hs]
    have hself : s.requeue s.sleepers [] s.runqueue = s := by simp [requeue]
    show _ = Except.ok (s.requeue s.sleepers [] s.runqueue)
    rw [hself]
    cases fuel with
    | zero => rfl
    | succ fuel =>
      unfold wakeupLoop
      rw [show s.sleepers[skipped.length]? = none by simp [hs]]
      rfl
  | cons t rest ih =>
    intro skipped rq fuel s hs hfuel hspl hq
    obtain ⟨fuel,rfl⟩ : ∃ n, fuel = n + 1 := ⟨fuel - 1,by simp at hfuel; omega⟩
    have hfuel' : rest.length ≤ fuel := by simpa using hfuel
    unfold wakeupLoop
    rw [show s.sleepers[skipped.length]? = some t by simp [hs]]
    dsimp only
    by_cases hp : s.sleepaddr t = some addr
    · rw [if_pos hp]
      have hon : sleepsOn s.sleepaddr addr t = true := by simpa [sleepsOn] using hp
      have herase : s.sleepers.eraseIdx skipped.length = skipped ++ rest := by
        rw [hs,List.eraseIdx_append_of_length_le (le_refl _)]
        simp
      obtain ⟨q,hq',-,-,hadd⟩ := Queue.addtail_spec hq (Queue.exact_id _) t
      have hr := hadd mem
      generalize hgen : (if mem = true ∨ rq.length + 1 < s.runqueue.size then some q else none) = r
        at hr
      have hmr : makeRunnable mem { s with sleepers := s.sleepers.eraseIdx skipped.length } t =
          .ok (r.map fun q => s.requeue (skipped ++ rest) [t] q) := by
        unfold makeRunnable
        rw [assert_of (by simpa using hspl),ok_bind,hr,herase]
        rfl
      rw [hmr,ok_bind]
      cases r with
      | none => cases single <;> simp [wakes,hon,Queue.addtails,hr,ok_bind] <;> rfl
      | some q₁ =>
        obtain rfl : q = q₁ := by
          split at hgen
          · exact Option.some.inj hgen
          · cases hgen
        cases single with
        | true =>
          simp [wakes,stays,hon,Queue.addtails,hr,ok_bind]
          rfl
        | false =>
          have hloop := ih skipped (rq ++ [t]) fuel (s.requeue (skipped ++ rest) [t] q) rfl hfuel'
            hspl hq'
          have hw : wakes (sleepsOn s.sleepaddr addr) false (t :: rest) =
              t :: wakes (sleepsOn s.sleepaddr addr) false rest := by simp [wakes,hon]
          have hst : stays (sleepsOn s.sleepaddr addr) false (t :: rest) =
              stays (sleepsOn s.sleepaddr addr) false rest := by simp [stays,hon]
          show wakeupLoop mem addr false fuel skipped.length _ = _
          rw [hloop,hw,hst,Queue.addtails,hr,ok_bind]
          simp only [requeue,List.append_assoc,List.singleton_append]
    · rw [if_neg hp]
      have hon : sleepsOn s.sleepaddr addr t = false := by simpa [sleepsOn] using hp
      have hloop := ih (skipped ++ [t]) rq fuel s (by simp [hs]) hfuel' hspl hq
      rw [List.length_append,List.length_singleton] at hloop
      rw [hloop,wakes_of_not hon,stays_of_not hon,List.append_assoc,List.singleton_append]

theorem wakeup_spec (hspl : 0 < s.curspl) (hq : s.runqueue.Holds rq) (addr : Nat)
    (single : Bool) : ∃ q : Queue, q.Holds (rq ++ s.woken addr single) ∧
      s.runqueue.size ≤ q.size ∧ ∀ mem, s.wakeup mem addr single =
        if mem = true ∨ rq.length + (s.woken addr single).length < s.runqueue.size then
          .ok (s.requeue (s.asleep addr single) (s.woken addr single) q)
        else .error (.panic "result==0") := by
  obtain ⟨q,hq',hsize,hadd⟩ := Queue.addtails_spec (s.woken addr single) hq
  refine ⟨q,hq',hsize,fun mem => ?_⟩
  unfold wakeup
  rw [assert_of (by simpa using hspl),ok_bind]
  have hloop := @wakeupLoop_eq mem addr single s.sleepers [] rq s.sleepers.length s rfl (le_refl _)
    hspl hq
  rw [show wakes (sleepsOn s.sleepaddr addr) single s.sleepers = s.woken addr single from rfl,
    hadd,ok_bind] at hloop
  refine hloop.trans ?_
  split <;> rfl

theorem wakeup_ok (hq : s.runqueue.Holds rq) (h : s.wakeup mem addr single = .ok s') :
    ∃ q : Queue, q.Holds (rq ++ s.woken addr single) ∧ s.runqueue.size ≤ q.size ∧
      s' = s.requeue (s.asleep addr single) (s.woken addr single) q := by
  have hspl : 0 < s.curspl := by simpa using (assert_bind_ok h).1
  obtain ⟨q,hq',hsize,hw⟩ := wakeup_spec hspl hq addr single
  rw [hw] at h
  split at h
  · cases h
    exact ⟨q,hq',hsize,rfl⟩
  · cases h

theorem wakeup_true (hspl : 0 < s.curspl) (hq : s.runqueue.Holds rq) (addr : Nat)
    (single : Bool) : ∃ q : Queue, q.Holds (rq ++ s.woken addr single) ∧
      s.wakeup true addr single =
        .ok (s.requeue (s.asleep addr single) (s.woken addr single) q) := by
  obtain ⟨q,hq',-,hw⟩ := wakeup_spec hspl hq addr single
  exact ⟨q,hq',by rw [hw,if_pos (.inl rfl)]⟩

end Sys

end OS161.Thread
