import OS161.Thread.Conserve

namespace OS161.Thread

namespace Sys
variable {s s' : Sys} {rq : List Nat} {mem : Bool}

def threadHassleepers (s : Sys) (addr : Nat) : Kern Bool := do
  assert (0 < s.curspl) "curspl>0"
  pure (s.sleepers.any (sleepsOn s.sleepaddr addr))

theorem threadHassleepers_eq (hspl : 0 < s.curspl) (addr : Nat) :
    s.threadHassleepers addr = .ok (s.sleepers.any (sleepsOn s.sleepaddr addr)) := by
  unfold threadHassleepers
  rw [assert_of (decide_eq_true hspl)]
  rfl

theorem any_stays {p : Nat → Bool} {single : Bool} (l : List Nat) :
    (stays p single l).any p = (single && decide (1 < l.countP p)) := by
  cases single with
  | false => simp [stays]
  | true =>
    induction l with
    | nil => rfl
    | cons t l ih =>
      cases hp : p t with
      | false => simpa [stays,hp] using ih
      | true =>
        rw [Bool.eq_iff_iff]
        simp [stays,hp,List.countP_pos_iff]

theorem any_stays_of_ne {p p' : Nat → Bool} {single : Bool} (l : List Nat)
    (hne : ∀ t, p t = true → p' t = false) : (stays p single l).any p' = l.any p' := by
  have hwakes : (wakes p single l).any p' = false :=
    List.any_eq_false.mpr fun t ht => by simp [hne t (mem_of_mem_wakes ht).2]
  rw [← (wakes_append_stays_perm : (wakes p single l ++ stays p single l).Perm l).any_eq,
    List.any_append,hwakes,Bool.false_or]

theorem wakeups_select_sleepers (hspl : 0 < s.curspl) (hq : s.runqueue.Holds rq) (addr : Nat)
    (single : Bool) (hmem : mem = true ∨ rq.length + (s.woken addr single).length < s.runqueue.size) :
    ∃ q : Queue, q.Holds (rq ++ s.woken addr single) ∧
      s.wakeup mem addr single = .ok (s.requeue (s.asleep addr single) (s.woken addr single) q) ∧
      ∀ a, (s.requeue (s.asleep addr single) (s.woken addr single) q).threadHassleepers a =
        if a = addr then .ok (single && decide (1 < s.sleepers.countP (sleepsOn s.sleepaddr addr)))
        else s.threadHassleepers a := by
  obtain ⟨q,hq',-,hw⟩ := wakeup_spec hspl hq addr single
  refine ⟨q,hq',by rw [hw,if_pos hmem],fun a => ?_⟩
  rw [threadHassleepers_eq hspl,threadHassleepers_eq (s := s.requeue _ _ q) hspl]
  by_cases ha : a = addr
  · rw [if_pos ha,ha]
    exact congrArg Except.ok (any_stays s.sleepers)
  · rw [if_neg ha]
    refine congrArg Except.ok (any_stays_of_ne s.sleepers fun t ht => decide_eq_false fun hx => ha ?_)
    exact Option.some.inj (hx.symm.trans (of_decide_eq_true ht))

theorem wakeups_select_sleepers_two_of_three :
    let s : Sys := { boot 0 with
      sleepers := [1, 2, 3]
      sleepaddr := fun t => some (if t = 2 then 8 else 7) }
    ∃ q : Queue, q.Holds [1, 3] ∧ s.wakeup false 7 false = .ok (s.requeue [2] [1, 3] q) := by
  intro s
  obtain ⟨q,hq,hw,-⟩ := @wakeups_select_sleepers s [] false (by decide)
    (Queue.create_holds (by decide)) 7 false (.inr (by decide))
  exact ⟨q,hq,hw⟩

structure Quiet (s s' : Sys) : Prop where
  runqueue : s'.runqueue = s.runqueue
  sleepers : s'.sleepers = s.sleepers
  zombies : s'.zombies = s.zombies
  sleepersMax : s'.sleepersMax = s.sleepersMax
  zombiesMax : s'.zombiesMax = s.zombiesMax
  fewer : s'.numthreads ≤ s.numthreads
  sum : s'.dying.length + s'.numthreads = s.dying.length + s.numthreads

theorem switchFrom_quiet {st : NextState} (ha : s.away = none) (hn : st ≠ .zomb)
    (h : s.switchFrom st = .ok s') : Quiet s s' := by
  unfold switchFrom at h
  have h := (assert_bind_ok h).2
  cases hc : s.curthread with
  | none =>
    rw [hc] at h
    cases h
    exact ⟨rfl,rfl,rfl,rfl,rfl,le_refl _,rfl⟩
  | some cur =>
    rw [hc] at h
    cases h
    refine ⟨rfl,rfl,rfl,rfl,rfl,le_refl _,?_⟩
    cases st <;> first | contradiction | simp [dying,ha]

theorem threadExit_quiet {cur : Nat} (ha : s.away = none) (hc : s.curthread = some cur)
    (h : s.threadExit cur = .ok s') : Quiet s s' := by
  unfold threadExit at h
  obtain ⟨hpos,h⟩ := assert_bind_ok h
  have hpos : 0 < s.numthreads := of_decide_eq_true hpos
  rw [Conserved.switchFrom_some h hc]
  refine ⟨rfl,rfl,rfl,rfl,rfl,?_,?_⟩
  · show s.numthreads - 1 ≤ s.numthreads
    omega
  · show 1 + (s.numthreads - 1) = s.dying.length + s.numthreads
    rw [show s.dying = [] by simp [dying,ha],List.length_nil]
    omega

structure Stored (s : Sys) : Prop where
  kept : Conserved s
  sleepers : s.sleepers.length ≤ s.sleepersMax
  zombies : s.zombies.length ≤ s.zombiesMax
  queue : s.numthreads ≤ s.runqueue.size

variable {mem : Mem} {n : Nat}

def resumes (s : Sys) : Prop :=
  ∃ next ∈ s.runqueue.toList.head?, s.started next = true

inductive Shift (s : Sys) (op : Op) (s' : Sys) : Prop
  | keep (fewer : s'.numthreads ≤ s.numthreads)
      (sum : s'.dead.length + s'.numthreads = s.dead.length + s.numthreads)
      (queue : s.runqueue.size ≤ s'.runqueue.size)
      (sleepers : s.sleepersMax ≤ s'.sleepersMax) (zombies : s.zombiesMax ≤ s'.zombiesMax)
  | fork (newguy : Nat) (hop : op = .fork newguy)
      (count : s'.numthreads = s.numthreads + 1)
      (queue : s'.numthreads ≤ s'.runqueue.size)
      (sleepers : s'.numthreads ≤ s'.sleepersMax)
      (zombies : s'.numthreads ≤ s'.zombiesMax ∧ s.zombiesMax ≤ s'.zombiesMax)
      (dead : s'.dead = s.dead)
  | resume (hop : op = .switch) (head : s.resumes)
      (count : s'.numthreads = s.numthreads)
      (queue : s'.runqueue.size = s.runqueue.size)
      (sleepers : s'.sleepersMax = s.sleepersMax)
      (zombies : s'.zombiesMax = if 16 < s.zombiesMax then 0 else s.zombiesMax)
      (dead : s'.dead = [])

structure Advance (s : Sys) (op : Op) (s' : Sys) : Prop where
  sleepers : s'.sleepers.length ≤ s'.sleepersMax
  zombies : s'.zombies.length ≤ s'.zombiesMax
  shift : Shift s op s'

theorem Stored.quiet {op : Op} (h : s.Stored) (hq : s.Quiet s') : Advance s op s' where
  sleepers := by
    rw [hq.sleepers,hq.sleepersMax]
    exact h.sleepers
  zombies := by
    rw [hq.zombies,hq.zombiesMax]
    exact h.zombies
  shift := by
    refine .keep hq.fewer ?_ (le_of_eq (congrArg Queue.size hq.runqueue).symm)
      (le_of_eq hq.sleepersMax.symm) (le_of_eq hq.zombiesMax.symm)
    have := hq.sum
    simp only [dead,List.length_append,hq.zombies]
    omega

theorem length_stays_le (p : Nat → Bool) (single : Bool) (l : List Nat) :
    (wakes p single l).length ≤ l.length ∧ (stays p single l).length ≤ l.length := by
  have hperm := (@wakes_append_stays_perm p single l).length_eq
  rw [List.length_append] at hperm
  omega

theorem Stored.wakeup {addr : Nat} {single mem : Bool} {op : Op} (h : s.Stored)
    (hk : s.wakeup mem addr single = .ok s') : Advance s op s' := by
  obtain ⟨q,-,hsize,rfl⟩ := wakeup_ok h.kept.queue hk
  exact ⟨le_trans (length_stays_le _ single s.sleepers).2 h.sleepers,h.zombies,
    .keep (le_refl _) rfl hsize (le_refl _) (le_refl _)⟩

theorem Stored.threadFork {r : Option Errno} (h : s.Stored)
    (hf : s.threadFork mem n = .ok (r, s')) : Advance s (.fork n) s' := by
  obtain ⟨q,a,b,hsize,ha,hb,hcase⟩ := threadFork_cases h.kept.queue hf
  rcases hcase with ⟨-,-,rfl⟩ | ⟨-,-,hnq,hna,hnb,rfl⟩
  · exact ⟨le_trans h.sleepers ha,le_trans h.zombies hb,.keep (le_refl _) rfl hsize ha hb⟩
  · exact ⟨le_trans h.sleepers ha,le_trans h.zombies hb,
      .fork n rfl rfl hnq hna ⟨hnb,hb⟩ rfl⟩

theorem Stored.stash {cur : Nat} {next : NextState} (h : s.Stored)
    (ha : s.away = some (cur, next)) (hs : s.stash mem cur next = .ok s') :
    Advance s .stash s' := by
  cases next with
  | ready =>
    obtain ⟨q,-,hsize,rfl⟩ := stash_ready h.kept.queue hs
    refine ⟨h.sleepers,h.zombies,.keep (le_refl _) ?_ hsize (le_refl _) (le_refl _)⟩
    simp [dead,dying,ha]
  | sleep =>
    obtain ⟨m,hlen,hmax,rfl⟩ := stash_sleep hs
    refine ⟨hlen,h.zombies,.keep (le_refl _) ?_ (le_refl _) hmax (le_refl _)⟩
    simp [dead,dying,ha]
  | zomb =>
    obtain ⟨m,hlen,hmax,rfl⟩ := stash_zomb hs
    refine ⟨h.sleepers,hlen,.keep (le_refl _) ?_ (le_refl _) (le_refl _) hmax⟩
    simp [dead,dying,ha]

theorem Stored.switchTo (h : s.Stored) (ha : s.away = none) (hc : s.curthread = none)
    (he : s.runqueue.isEmpty = false) (hs : s.switchTo mem = .ok s') : Advance s .switch s' := by
  obtain ⟨next,rest,q,hrq,hq,hsize,hs⟩ := h.kept.switchTo_eq he hs
  split at hs
  · rename_i hstarted
    obtain rfl := (h.kept.pick ha hc hrq hq).exorcise_eq ha hs
    refine ⟨h.sleepers,Nat.zero_le _,
      .resume rfl ⟨next,by simp [hrq],hstarted⟩ rfl hsize rfl rfl ?_⟩
    simp [dead,dying,ha]
  · cases hs
    exact ⟨h.sleepers,h.zombies,
      .keep (le_refl _) rfl (le_of_eq hsize.symm) (le_refl _) (le_refl _)⟩

theorem Stored.run {cur : Nat} {op : Op} (h : s.Stored) (ha : s.away = none)
    (hc : s.curthread = some cur) (hrun : s.run mem cur op = some (.ok s')) :
    Advance s op s' := by
  cases op with
  | fork n =>
    obtain ⟨hnew,hrun⟩ := Option.ite_none_right_eq_some.mp hrun
    obtain ⟨⟨r,_⟩,hfork,hs⟩ := bind_ok (Option.some.inj hrun)
    cases hs
    exact h.threadFork hfork
  | wakeup addr | wakeupSingle addr => exact h.wakeup (Option.some.inj hrun)
  | splx n | awake =>
    cases hrun
    exact h.quiet ⟨rfl,rfl,rfl,rfl,rfl,le_refl _,rfl⟩
  | yield =>
    obtain ⟨hq,hsl,hz,hsm,hzm,hn,hsum⟩ := switchFrom_quiet (s := s.splx splHigh) ha
      NextState.noConfusion (Option.some.inj hrun)
    exact h.quiet ⟨hq,hsl,hz,hsm,hzm,hn,hsum⟩
  | sleep addr =>
    have hs : s.threadSleep cur addr = .ok s' := Option.some.inj hrun
    have hne : NextState.sleep ≠ .zomb := nofun
    obtain ⟨hq,hsl,hz,hsm,hzm,hn,hsum⟩ := switchFrom_quiet
      (s := { s with sleepaddr := Function.update s.sleepaddr cur (some addr) }) ha hne hs
    exact h.quiet ⟨hq,hsl,hz,hsm,hzm,hn,hsum⟩
  | exit => exact h.quiet (threadExit_quiet ha hc (Option.some.inj hrun))
  | stash => cases hrun
  | switch => cases hrun

theorem Stored.idle {op : Op} (h : s.Stored) (ha : s.away = none) (hc : s.curthread = none)
    (hidle : s.idle mem op = some (.ok s')) : Advance s op s' := by
  cases op with
  | switch =>
    obtain ⟨he,hidle⟩ := Option.ite_none_left_eq_some.mp hidle
    exact h.switchTo ha hc (Bool.eq_false_iff.mpr he) (Option.some.inj hidle)
  | wakeup addr | wakeupSingle addr => exact h.wakeup (Option.some.inj hidle)
  | yield =>
    obtain ⟨u,hu,hs⟩ := bind_ok (Option.some.inj hidle)
    cases hs
    obtain ⟨hq,hsl,hz,hsm,hzm,hn,hsum⟩ :=
      switchFrom_quiet (s := s.splx splHigh) ha NextState.noConfusion hu
    exact h.quiet ⟨hq,hsl,hz,hsm,hzm,hn,hsum⟩
  | splx n => cases hidle
  | fork n => cases hidle
  | sleep addr => cases hidle
  | awake => cases hidle
  | exit => cases hidle
  | stash => cases hidle

theorem Stored.advance {op : Op} (h : s.Stored) (hs : s.step (op, mem) = some s') :
    Advance s op s' := by
  obtain ⟨cur,next,ha,rfl,hk⟩ | ⟨ha,⟨cur,hc,hk⟩ | ⟨hc,hk⟩⟩ := step_cases hs
  · exact h.stash ha hk
  · exact h.run ha hc hk
  · exact h.idle ha hc hk

theorem Stored.step {op : Op} (h : s.Stored) (hs : s.step (op, mem) = some s') :
    s'.Stored := by
  have hadv := h.advance hs
  refine ⟨h.kept.step hs,hadv.sleepers,hadv.zombies,?_⟩
  have := h.queue
  cases hadv.shift with
  | keep fewer _ queue _ _ => omega
  | fork _ _ _ queue _ _ _ => exact queue
  | resume _ _ count queue _ _ _ => omega

theorem stored_boot (me : Nat) : (boot me).Stored :=
  ⟨Conserved.boot me,le_refl _,le_refl _,show 1 ≤ 32 by decide⟩

theorem Stored.along {me : Nat} {ls : List (Op × Mem)}
    (hrun : Run.exec Sys.step (boot me) ls = some s) : s.Stored :=
  Run.invariant (P := fun _ _ => True) (fun _ _ _ h _ hs => h.step hs) (stored_boot me)
    (Run.along_of_forall (P := fun _ => True) fun _ _ => trivial) hrun

end Sys

end OS161.Thread
