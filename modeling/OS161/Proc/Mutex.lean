import OS161.Proc.Model
import OS161.Lib.Run

namespace OS161.Proc

open Function

def Pc.choosing : Pc → Bool
  | .cpScan _ _ | .cpChild _ _ _ => true
  | _ => false

def Pc.releasing : Pc → Bool
  | .exitRelease | .refuse | .cvSleep _ _ | .firstRelease _ _ | .secondRelease _ _
  | .cpRelease _ => true
  | _ => false

def Obtained (s : State) (t : Nat) (pid : Int) : Prop :=
  pid ≠ -1 ∧ ∃ st f, (s.threads t).pc = .cpChild st f pid

def NoStrayRelease (s : State) : Act → Prop
  | .thread t _ => (s.threads t).pc.releasing = true → s.cs t = false → ∀ u, s.cs u = false
  | .scribble _ _ => True
  | .overrun _ _ => False

structure Exclusive (s : State) : Prop where
  holder : ∀ u, s.cs u = true → s.lock = ⟨true, some u⟩
  inside : ∀ u, (s.threads u).pc.choosing = true → s.cs u = true
  vacant : ∀ u pid, Obtained s u pid → s.table pid = none

namespace State
variable (s : State) (t u : Nat) (pc : Pc) (c : Nat) (p : Process) (n : Nat) (l : Life)

@[simp] theorem lock_setPc : (s.setPc t pc).lock = s.lock := rfl
@[simp] theorem cs_setPc : (s.setPc t pc).cs = s.cs := rfl
@[simp] theorem table_setPc : (s.setPc t pc).table = s.table := rfl
@[simp] theorem threads_setMem : (s.setMem c p).threads = s.threads := rfl
theorem pc_setPc : ((s.setPc t pc).threads u).pc = if u = t then pc else (s.threads u).pc := by
  unfold setPc
  by_cases h : u = t
  · simp [h]
  · simp [h]

end State

section
variable {s s' : State} {t : Nat} {pc : Pc} (h : Exclusive s)
include h

theorem Exclusive.unique {u v : Nat} (hu : s.cs u = true) (hv : s.cs v = true) : u = v := by
  have := (h.holder u hu).symm.trans (h.holder v hv)
  simpa using this

theorem Exclusive.frame (hlock : s'.lock = s.lock) (hcs : s'.cs = s.cs)
    (hpc : ∀ u, (s'.threads u).pc = (s.threads u).pc)
    (htab : ∀ i, s.table i = none → s'.table i = none) : Exclusive s' where
  holder u hu := by rw [hlock]; exact h.holder u (hcs ▸ hu)
  inside u hu := by rw [hcs]; exact h.inside u (hpc u ▸ hu)
  vacant u pid hu := by
    refine htab pid (h.vacant u pid ⟨hu.1,?_⟩)
    rw [← hpc u]
    exact hu.2

theorem Exclusive.setPc (hin : pc.choosing = true → s.cs t = true)
    (hob : ∀ st f i, pc = .cpChild st f i → i ≠ -1 → s.table i = none) :
    Exclusive (s.setPc t pc) where
  holder := h.holder
  inside u hu := by
    rw [State.pc_setPc] at hu
    split at hu
    case isTrue heq => exact heq ▸ hin hu
    case isFalse => exact h.inside u hu
  vacant := by
    rintro u pid ⟨hne,st,f,hu⟩
    rw [State.pc_setPc] at hu
    split at hu
    case isTrue => exact hob st f pid hu hne
    case isFalse => exact h.vacant u pid ⟨hne,st,f,hu⟩

theorem Exclusive.leave (hin : pc.choosing = false) : Exclusive (s.setPc t pc) := by
  refine h.setPc (fun hc => ?_) (fun st f i hpc => ?_)
  · rw [hin] at hc
    cases hc
  · rw [hpc] at hin
    cases hin

theorem Exclusive.acquire (hfree : s.lock.held = false) : Exclusive (s.acquire t) := by
  have hnone : ∀ u, s.cs u = false := fun u => by
    by_contra hu
    rw [Bool.not_eq_false] at hu
    rw [h.holder u hu] at hfree
    cases hfree
  refine ⟨fun u hu => ?_,fun u hu => ?_,h.vacant⟩
  · by_cases hut : u = t
    · rw [hut]
      rfl
    · simp [State.acquire,update_of_ne hut,hnone u] at hu
  · have := h.inside u hu
    rw [hnone u] at this
    cases this

theorem Exclusive.alone (hok : s.cs t = false → ∀ u, s.cs u = false) {u : Nat} (hut : u ≠ t) :
    s.cs u = false := by
  cases ht : s.cs t with
  | false => exact hok ht u
  | true =>
    by_contra hu
    rw [Bool.not_eq_false] at hu
    exact hut (h.unique hu ht)

theorem Exclusive.release (hok : s.cs t = false → ∀ u, s.cs u = false)
    (hpc : (s.threads t).pc.choosing = false) : Exclusive (s.release t) := by
  refine ⟨fun u hu => ?_,fun u hu => ?_,h.vacant⟩
  · by_cases hut : u = t
    · simp [State.release,hut] at hu
    · simp [State.release,update_of_ne hut,h.alone hok hut] at hu
  · have hut : u ≠ t := fun heq => by
      rw [heq] at hu
      exact absurd hpc (by rw [show (s.threads t).pc.choosing = true from hu]; decide)
    have := h.inside u hu
    rw [h.alone hok hut] at this
    cases this

theorem Exclusive.register {table : Int → Option Nat} {slot : Int → Option (Nat × Health)}
    (hcs : s.cs t = true) (hpc : pc.choosing = false) :
    Exclusive (({ s with table := table, slot := slot }).setPc t pc) := by
  have hothers : ∀ u, u ≠ t → (s.threads u).pc.choosing = false := fun u hut => by
    by_contra hu
    rw [Bool.not_eq_false] at hu
    exact hut (h.unique (h.inside u hu) hcs)
  refine ⟨h.holder,fun u hu => ?_,?_⟩
  · rw [State.pc_setPc] at hu
    split at hu
    case isTrue => rw [hpc] at hu; cases hu
    case isFalse hut => exact h.inside u hu
  · rintro u pid ⟨-,st,f,hu⟩
    rw [State.pc_setPc] at hu
    split at hu
    case isTrue => rw [hu] at hpc; cases hpc
    case isFalse hut =>
      have := hothers u hut
      rw [show (s.threads u).pc = .cpChild st f pid from hu] at this
      cases this

end

theorem reapStage_same (i : Int) (stage : Stage) (s : State) :
    (reapStage s i stage).lock = s.lock ∧ (reapStage s i stage).cs = s.cs ∧
      (reapStage s i stage).threads = s.threads ∧ (reapStage s i stage).table = s.table := by
  unfold reapStage
  split <;> exact ⟨rfl,rfl,rfl,rfl⟩

theorem startFork_pc (s : State) (t thread temp u : Nat) :
    ((startFork s t thread temp).threads u).pc =
      (((s.setPc thread (.created t)).setPc t (.cpCv ⟨temp, thread, s.next⟩)).threads u).pc := by
  unfold startFork
  rcases eq_or_ne u t with rfl | hut
  · simp [State.setPc]
  · simp [State.setPc,update_of_ne hut]

theorem threadStep_cases {s s' : State} {t : Nat} {choice : Choice}
    (hstep : step s (.thread t choice) = some s') :
    s.asleep t = false ∧
      (((s.threads t).pc = .user ∧ userCall s t choice = some s') ∨
        (∃ f cv, (s.threads t).pc = .cpCv f ∧ choice = .cvCreate cv ∧
          cvCreate s t f cv = some s') ∨
        (∃ f run ok, (s.threads t).pc = (if run then .tfRun f else .tfStack f) ∧
          choice = .kmalloc ok ∧ forkRest s t f run ok = s') ∨
        (choice = .run ∧ runStep s t (s.threads t).pc = some s')) := by
  simp only [step,threadStep] at hstep
  split at hstep
  · cases hstep
  · rename_i hasleep
    refine ⟨by simpa using hasleep,?_⟩
    split at hstep
    case h_1 c hpc => exact .inl ⟨hpc,hstep⟩
    case h_2 f cv hpc => exact .inr (.inl ⟨f,cv,hpc,rfl,hstep⟩)
    case h_3 f ok hpc => exact .inr (.inr (.inl ⟨f,false,ok,hpc,rfl,Option.some.inj hstep⟩))
    case h_4 f ok hpc => exact .inr (.inr (.inl ⟨f,true,ok,hpc,rfl,Option.some.inj hstep⟩))
    case h_5 => exact .inr (.inr (.inr ⟨rfl,hstep⟩))
    case h_6 => cases hstep

section Steps
variable {s s' : State} {t : Nat} (h : Exclusive s)
include h

theorem Exclusive.quiet {s₁ : State} {pc : Pc} (hlock : s₁.lock = s.lock) (hcs : s₁.cs = s.cs)
    (hpc : ∀ u, (s₁.threads u).pc = (s.threads u).pc)
    (htab : ∀ i, s.table i = none → s₁.table i = none) (hin : pc.choosing = false) :
    Exclusive (s₁.setPc t pc) :=
  (h.frame hlock hcs hpc htab).leave hin

theorem Exclusive.releasing {pc pc' : Pc} (hpc : (s.threads t).pc = pc)
    (hrel : pc.releasing = true) (hok : NoStrayRelease s (.thread t .run))
    (hin : pc'.choosing = false) : Exclusive ((s.release t).setPc t pc') := by
  refine (h.release (fun hcs => hok ?_ hcs) ?_).leave hin
  · rw [hpc]
    exact hrel
  · rw [hpc]
    cases pc <;> first | rfl | cases hrel

theorem Exclusive.childStmt {st : ChildStmt} {f : Fork} {i : Int}
    (hpc : (s.threads t).pc = .cpChild st f i) : Exclusive (childStmt s t f i st) := by
  have hcs : s.cs t = true := h.inside t (by rw [hpc]; rfl)
  have hob : ∀ st' f' i', (Pc.cpChild st f i = .cpChild st' f' i') → i' ≠ -1 → s.table i' = none := by
    intro st' f' i' heq hne
    exact h.vacant t i' ⟨hne,st',f',by rw [hpc,heq]⟩
  have hgo : ∀ st', Exclusive (s.setPc t (.cpChild st' f i)) := fun st' =>
    h.setPc (fun _ => hcs) fun st'' f'' i'' heq hne => by
      cases heq
      exact hob _ _ _ rfl hne
  have hthread : ∀ (th : Thread) (st' : ChildStmt), th.pc = (s.threads f.thread).pc →
      Exclusive (({ s with threads := update s.threads f.thread th }).setPc t
        (.cpChild st' f i)) := by
    intro th st' hth
    have hpcs : ∀ u, ((update s.threads f.thread th) u).pc = (s.threads u).pc := by
      intro u
      by_cases hu : u = f.thread
      · rw [hu,update_self,hth]
      · rw [update_of_ne hu]
    have hfr : Exclusive { s with threads := update s.threads f.thread th } :=
      h.frame rfl rfl hpcs fun _ => id
    refine hfr.setPc (fun _ => hcs) fun st'' f'' i'' heq hne => ?_
    cases heq
    exact hob _ _ _ rfl hne
  cases st with
  | pid => exact (hgo .test).frame rfl rfl (fun _ => rfl) fun _ => id
  | test =>
    simp only [OS161.Proc.childStmt]
    split
    · exact h.leave rfl
    · exact hgo .ppid
  | ppid => exact (hgo .status).frame rfl rfl (fun _ => rfl) fun _ => id
  | status => exact (hgo .exitcode).frame rfl rfl (fun _ => rfl) fun _ => id
  | exitcode => exact (hgo .processPtr).frame rfl rfl (fun _ => rfl) fun _ => id
  | processPtr => exact (hgo .arrayPtr).frame rfl rfl (fun _ => rfl) fun _ => id
  | arrayPtr => exact hthread _ .threadPid rfl
  | threadPid => exact hthread _ .table rfl
  | table => exact h.register hcs rfl

theorem Exclusive.freeThread (f : Fork) : Exclusive (s.freeThread f) := by
  have hfree : Exclusive (s.setPc f.thread .unborn) := h.leave rfl
  exact hfree.frame rfl rfl (fun _ => rfl) fun _ => id

theorem Exclusive.lockTry {r : Ret} (hfree : s.lock.held = false) :
    Exclusive ((s.acquire t).setPc t (afterAcquire r)) := by
  refine (h.acquire hfree).setPc (fun _ => ?_) (fun st f i heq => ?_)
  · simp [State.acquire]
  · cases r <;> cases heq

theorem Exclusive.runStep {pc : Pc} (hpc : (s.threads t).pc = pc)
    (hok : NoStrayRelease s (.thread t .run)) (hstep : runStep s t pc = some s') :
    Exclusive s' := by
  cases pc with
  | exitStatus code ptr | exitCode code ptr | fullCv f =>
    cases hstep; exact (h.leave rfl).frame rfl rfl (fun _ => rfl) fun _ => id
  | exitCv | stopRead w | cvLoad w | wokenRead w | waitDone w v => cases hstep; exact h.leave rfl
  | exitSignal cv =>
    obtain ⟨-,hstep⟩ := Option.ite_none_right_eq_some.mp hstep
    cases hstep; exact (h.leave rfl).frame rfl rfl (fun _ => rfl) fun _ => id
  | lockCheck r =>
    obtain ⟨-,hstep⟩ := Option.ite_none_left_eq_some.mp hstep
    cases hstep; exact h.leave rfl
  | lockTry r =>
    simp only [OS161.Proc.runStep] at hstep
    split at hstep <;> rename_i hheld
    · cases hstep; exact h.frame rfl rfl (fun _ => rfl) fun _ => id
    · cases hstep; exact h.lockTry (by simpa using hheld)
  | scan i =>
    simp only [OS161.Proc.runStep] at hstep
    split at hstep
    · cases hstep; exact h.leave rfl
    · split at hstep <;> cases hstep <;> exact h.leave rfl
  | reapTest i =>
    simp only [OS161.Proc.runStep] at hstep
    obtain ⟨hl,hc,hth,htab⟩ := reapStage_same i (.reaping t) s
    split at hstep
    · cases hstep
    · split at hstep
      · cases hstep
        exact h.quiet hl hc (fun u => by rw [hth]) (fun j hj => by rw [htab]; exact hj) rfl
      · cases hstep; exact h.leave rfl
  | reapPid i =>
    simp only [OS161.Proc.runStep] at hstep
    split at hstep
    · cases hstep
    · obtain ⟨-,⟨⟩⟩ := Option.ite_none_right_eq_some.mp hstep
      exact (h.leave rfl).frame rfl rfl (fun _ => rfl) fun _ => id
  | reapCv i =>
    simp only [OS161.Proc.runStep] at hstep
    split at hstep
    · cases hstep
    · cases hstep; exact (h.leave rfl).frame rfl rfl (fun _ => rfl) fun _ => id
  | reapFree i =>
    simp only [OS161.Proc.runStep] at hstep
    split at hstep
    · cases hstep; exact h.leave rfl
    · cases hstep; exact (h.leave rfl).frame rfl rfl (fun _ => rfl) fun _ => id
  | reapNull i =>
    cases hstep
    obtain ⟨hl,hc,hth,htab⟩ := reapStage_same i .gone s
    refine h.quiet hl hc (fun u => congrArg (fun th => (th u).pc) hth) (fun j hj => ?_) rfl
    by_cases hji : j = i
    · simp [hji]
    · simpa [update_of_ne hji] using hj
  | exitRelease =>
    cases hstep
    exact (h.releasing hpc rfl hok rfl).frame rfl rfl (fun _ => rfl) fun _ => id
  | getTest pid | getRead pid | ppidNe w | ppidEq w | statusTest w =>
    simp only [OS161.Proc.runStep] at hstep
    split at hstep <;> cases hstep <;> exact h.leave rfl
  | refuse | firstRelease w v | secondRelease w v | cpRelease f =>
    cases hstep; exact h.releasing hpc rfl hok rfl
  | cvHold w cv =>
    obtain ⟨-,hstep⟩ := Option.ite_none_right_eq_some.mp hstep
    cases hstep; exact h.leave rfl
  | cvSleep w cv =>
    cases hstep
    have hrel : Exclusive ((s.release t).setPc t (.cvAsleep w cv)) := h.releasing hpc rfl hok rfl
    exact hrel.frame rfl rfl (fun _ => rfl) fun _ => id
  | cvAsleep w cv =>
    obtain ⟨-,hstep⟩ := Option.ite_none_left_eq_some.mp hstep
    split at hstep <;> rename_i hheld
    · cases hstep; exact (h.leave rfl).frame rfl rfl (fun _ => rfl) fun _ => id
    · cases hstep; exact (h.acquire (by simpa using hheld)).leave rfl
  | reacquire w =>
    simp only [OS161.Proc.runStep] at hstep
    split at hstep <;> rename_i hheld
    · cases hstep; exact h.frame rfl rfl (fun _ => rfl) fun _ => id
    · cases hstep; exact (h.acquire (by simpa using hheld)).leave rfl
  | cpScan f i =>
    have hcs : s.cs t = true := h.inside t (by rw [hpc]; rfl)
    simp only [OS161.Proc.runStep] at hstep
    split at hstep
    · cases hstep
      exact h.setPc (fun _ => hcs) fun st f' i' heq hne => by cases heq; exact absurd rfl hne
    · split at hstep <;> rename_i htab
      · cases hstep
        exact h.setPc (fun _ => hcs) fun st f' i' heq _ => by cases heq; exact htab
      · cases hstep
        exact h.setPc (fun _ => hcs) fun st f' i' heq => by cases heq
  | cpChild st f i => cases hstep; exact h.childStmt hpc
  | fullFree f =>
    cases hstep
    exact ((h.freeThread f).leave rfl).frame rfl rfl (fun _ => rfl) fun _ => id
  | _ => cases hstep

theorem Exclusive.userCall {choice : Choice} (hstep : userCall s t choice = some s') :
    Exclusive s' := by
  cases choice with
  | exit code => cases hstep; exact (h.leave rfl).frame rfl rfl (fun _ => rfl) fun _ => id
  | waitpid pid options statusNull =>
    simp only [OS161.Proc.userCall] at hstep
    split at hstep
    · cases hstep; exact h
    · cases hstep; exact h.leave rfl
  | fork thread temp =>
    cases temp with
    | none => cases hstep; exact h
    | some temp =>
      obtain ⟨-,⟨⟩⟩ := Option.ite_none_right_eq_some.mp hstep
      have hnew : Exclusive (s.setPc thread (.created t)) := h.leave rfl
      have hself : Exclusive ((s.setPc thread (.created t)).setPc t
        (.cpCv ⟨temp,thread,s.next⟩)) := hnew.leave rfl
      exact hself.frame rfl rfl (fun u => startFork_pc s t thread temp u) fun _ => id
  | ret =>
    obtain ⟨-,hstep⟩ := Option.ite_none_right_eq_some.mp hstep
    cases hstep; exact (h.leave rfl).frame rfl rfl (fun _ => rfl) fun _ => id
  | _ => cases hstep

theorem Exclusive.cvCreate {f : Fork} {cv : Option Nat} (hstep : cvCreate s t f cv = some s') :
    Exclusive s' := by
  cases cv with
  | none =>
    cases hstep
    exact ((h.freeThread f).leave rfl).frame rfl rfl (fun _ => rfl) fun _ => id
  | some cv =>
    obtain ⟨-,⟨⟩⟩ := Option.ite_none_right_eq_some.mp hstep
    exact (h.leave rfl).frame rfl rfl (fun _ => rfl) fun _ => id

theorem Exclusive.forkRest (f : Fork) (run ok : Bool) : Exclusive (forkRest s t f run ok) := by
  cases ok with
  | false => exact (h.freeThread f).leave rfl
  | true =>
    cases run with
    | false => exact h.leave rfl
    | true =>
      have hnew : Exclusive (s.setPc f.thread .user) := h.leave rfl
      exact (hnew.leave rfl).frame rfl rfl (fun _ => rfl) fun _ => id

theorem Exclusive.step {act : Act} (hok : NoStrayRelease s act) (hstep : step s act = some s') :
    Exclusive s' := by
  cases act with
  | thread t choice =>
    obtain ⟨-,hmove⟩ := threadStep_cases hstep
    rcases hmove with ⟨-,hs⟩ | ⟨f,cv,-,-,hs⟩ | ⟨f,run,ok,-,-,hs⟩ | ⟨-,hs⟩
    · exact h.userCall hs
    · exact h.cvCreate hs
    · exact hs ▸ h.forkRest f run ok
    · exact h.runStep rfl hok hs
  | scribble c p =>
    obtain ⟨-,hstep⟩ := Option.ite_none_left_eq_some.mp hstep
    cases hstep; exact h.frame rfl rfl (fun _ => rfl) fun _ => id
  | overrun => exact hok.elim

end Steps

theorem exclusive_boot (mem : Nat → Process) : Exclusive (boot mem) where
  holder u hu := by cases hu
  inside u hu := by
    rcases eq_or_ne u 0 with rfl | hne
    · cases hu
    · simp [boot,update_of_ne hne,Pc.choosing] at hu
  vacant := by
    rintro u pid ⟨-,st,f,hu⟩
    rcases eq_or_ne u 0 with rfl | hne
    · cases hu
    · simp [boot,update_of_ne hne] at hu

theorem exclusive_along {mem : Nat → Process} {acts : List Act} {s : State}
    (hok : Run.Along step NoStrayRelease (boot mem) acts)
    (hrun : Run.exec step (boot mem) acts = some s) : Exclusive s :=
  Run.invariant (fun _ _ _ h hok hstep => h.step hok hstep) (exclusive_boot mem) hok hrun

theorem process_lock_exclusive_along {mem : Nat → Process} {acts : List Act} {s : State}
    (hok : Run.Along step NoStrayRelease (boot mem) acts)
    (hrun : Run.exec step (boot mem) acts = some s) :
    (∀ t u, s.cs t = true → s.cs u = true → t = u) ∧
      (∀ t u pid, Obtained s t pid → Obtained s u pid → t = u) ∧
      ∀ t pid, Obtained s t pid → s.table pid = none := by
  have h := exclusive_along hok hrun
  have hcs : ∀ t pid, Obtained s t pid → s.cs t = true := by
    rintro t pid ⟨-,st,f,ht⟩
    exact h.inside t (by rw [ht]; rfl)
  refine ⟨fun t u ht hu => h.unique ht hu,fun t u pid ht hu => ?_,h.vacant⟩
  exact h.unique (hcs t pid ht) (hcs u pid hu)

def releasesOwn (s : State) : Act → Bool
  | .thread t _ => !(s.threads t).pc.releasing || s.cs t
  | .scribble _ _ => true
  | .overrun _ _ => false

theorem noStrayRelease_of {s : State} {act : Act} (h : releasesOwn s act = true) :
    NoStrayRelease s act := by
  cases act with
  | thread t choice =>
    intro hrel hout
    simp [releasesOwn,hrel,hout] at h
  | scribble => trivial
  | overrun => cases h

def secondFork : List Act := forkWhole 0 1 1 2 ++ forkUntil 1 2 2 5

theorem process_lock_exclusive_second_fork :
    ∃ s, Run.exec step (boot fun _ => bootProcess 0) secondFork = some s ∧ Obtained s 1 103 ∧
      s.table 103 = none ∧ (∀ t, s.cs t = true → t = 1) ∧ ∀ t, Obtained s t 103 → t = 1 := by
  have hview : ((Run.exec step (boot fun _ => bootProcess 0) secondFork).map
      fun s => (s.cs 1, (s.threads 1).pc)) = some (true, .cpChild .pid ⟨2,2,3⟩ 103) := by
    decide +kernel
  obtain ⟨s,hs,heq⟩ := Option.map_eq_some_iff.mp hview
  obtain ⟨hcs,hpc⟩ := Prod.mk.inj heq
  have hchk : Run.check step releasesOwn (boot fun _ => bootProcess 0) secondFork = true := by
    decide +kernel
  have hok : Run.Along step NoStrayRelease (boot fun _ => bootProcess 0) secondFork :=
    Run.along_mono (fun _ _ => noStrayRelease_of) (Run.along_of_check hchk)
  obtain ⟨huniq,hpids,hfree⟩ := process_lock_exclusive_along hok hs
  have hobt : Obtained s 1 103 := ⟨by decide,.pid,⟨2,2,3⟩,hpc⟩
  exact ⟨s,hs,hobt,hfree 1 103 hobt,fun t ht => huniq t 1 ht hcs,
    fun t ht => hpids t 1 103 ht hobt⟩

def strayRelease : List Act :=
  forkWhole 0 1 1 2 ++ forkWhole 0 2 2 3 ++ [.thread 1 (.exit 7)] ++ runs 1 1 ++
    [.thread 0 (.waitpid 102 0 false)] ++ runs 0 9 ++ forkUntil 2 3 3 6 ++ runs 0 2 ++
    forkUntil 0 4 4 6

theorem stray_release_shares_pid :
    ∃ s, Run.exec step (boot fun _ => bootProcess 0) strayRelease = some s ∧ s.cs 0 = true ∧
      s.cs 2 = true ∧ Obtained s 0 104 ∧ Obtained s 2 104 := by
  have hview : ((Run.exec step (boot fun _ => bootProcess 0) strayRelease).map
      fun s => (s.cs 0, s.cs 2, (s.threads 0).pc, (s.threads 2).pc)) =
      some (true, true, .cpChild .pid ⟨4,4,5⟩ 104, .cpChild .pid ⟨3,3,4⟩ 104) := by
    decide +kernel
  obtain ⟨s,hs,heq⟩ := Option.map_eq_some_iff.mp hview
  simp only [Prod.mk.injEq] at heq
  obtain ⟨h0,h2,hpc0,hpc2⟩ := heq
  exact ⟨s,hs,h0,h2,⟨by decide,.pid,_,hpc0⟩,⟨by decide,.pid,_,hpc2⟩⟩

end OS161.Proc
