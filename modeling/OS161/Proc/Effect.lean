import OS161.Proc.Tidy

namespace OS161.Proc

open Function

inductive Stand where
  | out
  | inside
  | leaving
  | scanning (i : Int)
  | finishing
  deriving DecidableEq, Repr

def Pc.stand : Pc → Stand
  | .unborn | .created _ | .zombie => .out
  | .exitStatus _ _ | .exitCode _ _ | .lockCheck .exit | .lockTry .exit | .exitCv | .exitSignal _ =>
    .leaving
  | .scan i | .reapTest i | .reapPid i | .reapCv i | .reapFree i | .reapNull i => .scanning i
  | .exitRelease => .finishing
  | _ => .inside

def Pc.accepted : Pc → Option Wait
  | .ppidEq w | .statusTest w | .stopRead w | .cvLoad w | .cvHold w _ | .cvSleep w _
  | .cvAsleep w _ | .reacquire w | .wokenRead w => some w
  | _ => none

def Pc.Follows (pc₀ pc : Pc) : Prop :=
  (∀ st f i, pc = .cpChild st f i → ∃ st', pc₀ = .cpChild st' f i) ∧
    ∀ f k, pc.forking = some (f, k) → k ≤ 6

inductive Queued (s : State) (t : Nat) (pc : Pc) : List (Nat × Chan) → Prop
  | keep : Queued s t pc s.sleepers
  | release : Queued s t pc (s.release t).sleepers
  | lock : Queued s t pc (s.sleep t .lock).sleepers
  | cv {w : Wait} {cv : Nat} (hpc : pc = .cvAsleep w cv) :
      Queued s t pc ((s.release t).sleep t (.cv cv)).sleepers

def Arrives (s : State) (t : Nat) (cs : Nat → Bool) : Pc → Prop
  | .exitCv => cs t = true
  | .exitSignal cv => cs t = s.cs t ∧ cv = (s.mem (s.threads t).arrayPtr).arrayCv
  | .reapTest i => (s.threads t).pc = .scan i
  | .scan _ | .reapPid _ | .reapFree _ | .exitRelease => False
  | .reapCv i => (s.threads t).pc = .reapPid i ∧ cs t = s.cs t
  | .reapNull i => (s.threads t).pc = .reapFree i ∧ cs t = s.cs t
  | .ppidEq w => (s.threads t).pc = .ppidNe w ∧ (s.mem w.child).ppid = (s.threads t).pid
  | .cvLoad w => (s.threads t).pc = .statusTest w ∧ (s.mem w.child).status ≠ .stop
  | .cvHold w cv => (s.threads t).pc = .cvLoad w ∧ cv = (s.mem w.child).arrayCv
  | .cvSleep w cv => (s.threads t).pc = .cvHold w cv
  | .cvAsleep w cv => (s.threads t).pc = .cvSleep w cv
  | .statusTest w | .stopRead w | .reacquire w | .wokenRead w => (s.threads t).pc.accepted = some w
  | .cpChild st f i => st = .pid ∨ ∃ st', (s.threads t).pc = .cpChild st' f i
  | _ => True

structure Turn (s : State) (t : Nat) (z : List (Nat × Chan)) (cs : Nat → Bool) (pc : Pc) : Prop where
  live : (s.threads t).pc.live = true
  stand : pc.stand = (s.threads t).pc.stand
  fork : pc.forking = (s.threads t).pc.forking
  queued : Queued s t pc z
  others : ∀ u, u ≠ t → cs u = s.cs u
  arrives : Arrives s t cs pc

def State.writes (s : State) (t : Nat) (f : Fork) (cvs : Nat → Option Nat) (p : Process)
    (pid ppid : Int) (pc : Pc) : State :=
  ((({ s with cvs := cvs }).setMem f.temp p).setLife f.proc
    { s.life f.proc with pid := pid, ppid := ppid }).setPc t pc

inductive Effect (s : State) (t : Nat) (choice : Choice) : State → Prop
  | turn {lock : Lock} {z : List (Nat × Chan)} {cs : Nat → Bool} {pc : Pc}
      {n : Nat → List Int} (hturn : Turn s t z cs pc) :
      Effect s t choice ((State.resync { s with n := n } lock z cs).setPc t pc)
  | call {code : Int} (hpc : (s.threads t).pc = .user) (hchoice : choice = .exit code) :
      Effect s t choice ((s.setLife (s.threads t).proc
        { s.life (s.threads t).proc with exitArg := some code }).setPc t
        (.exitStatus code (s.threads t).arrayPtr))
  | leave (hpc : (s.threads t).pc = .user) (hchoice : choice = .ret) :
      Effect s t choice (({ s with n := Function.update s.n t [] }).setPc t (.scan minpid))
  | stop {code : Int} {ptr : Nat} (hpc : (s.threads t).pc = .exitStatus code ptr) :
      Effect s t choice (((s.setMem ptr { s.mem ptr with status := .stop }).setLife
        (s.threads t).proc { s.life (s.threads t).proc with phase := .stopping }).setPc t
        (.exitCode code ptr))
  | code {code : Int} {ptr : Nat} (hpc : (s.threads t).pc = .exitCode code ptr) :
      Effect s t choice (((s.setMem ptr { s.mem ptr with exitcode := code }).setLife
        (s.threads t).proc { s.life (s.threads t).proc with phase := .exited }).setPc t
        (.lockCheck .exit))
  | signal {cv : Nat} (hpc : (s.threads t).pc = .exitSignal cv) :
      Effect s t choice (({ s.wakeupSingle (.cv cv) with n := Function.update s.n t [] }).setPc t
        (.scan minpid))
  | pass {i : Int} (hpc : (s.threads t).pc = .scan i ∨ (s.threads t).pc = .reapTest i)
      (hskip : ∀ c, s.table i = some c →
        ¬ ((s.mem c).ppid = (s.threads t).pid ∧ (s.mem c).status = .stop)) :
      Effect s t choice (s.setPc t (.scan (i + 1)))
  | finish {i : Int} (hpc : (s.threads t).pc = .scan i) (hi : maxpid < i) :
      Effect s t choice (s.setPc t .exitRelease)
  | claim {i : Int} {c : Nat} (hpc : (s.threads t).pc = .reapTest i) (htab : s.table i = some c)
      (hppid : (s.mem c).ppid = (s.threads t).pid) (hstop : (s.mem c).status = .stop) :
      Effect s t choice ((reapStage s i (.reaping t)).setPc t (.reapPid i))
  | spoil {i : Int} {c : Nat} (hpc : (s.threads t).pc = .reapCv i) (htab : s.table i = some c) :
      Effect s t choice ((({ s with cvs := Function.update s.cvs (s.mem c).arrayCv none }).setHealth
        i .cvGone).setPc t (.reapFree i))
  | free {i : Int} {c : Nat} (hpc : (s.threads t).pc = .reapFree i) (htab : s.table i = some c) :
      Effect s t choice ((({ s with alloc := Function.update s.alloc c false }).setHealth i
        .freed).setPc t (.reapNull i))
  | null {i : Int} (hpc : (s.threads t).pc = .reapNull i) :
      Effect s t choice (({ reapStage s i .gone with
        table := Function.update s.table i none
        slot := Function.update s.slot i none }).setPc t (.scan (i + 1)))
  | retire (hpc : (s.threads t).pc = .exitRelease) :
      Effect s t choice (((s.release t).setStage (s.threads t).proc .ended).setPc t .zombie)
  | fork {thread temp : Nat} (hpc : (s.threads t).pc = .user)
      (hthread : (s.threads thread).pc = .unborn ∨ (s.threads thread).pc = .zombie)
      (htemp : s.alloc temp = false) (hchoice : choice = .fork thread (some temp)) :
      Effect s t choice (startFork s t thread temp)
  | write {f : Fork} {k : Nat} {cvs : Nat → Option Nat} {p : Process} {pid ppid : Int} {pc : Pc}
      (hfork : (s.threads t).pc.forking = some (f, k)) (hk : k ≤ 4)
      (hpc : ∃ k', pc.forking = some (f, k'))
      (hcvs : ∀ cv c, c ≠ f.temp → (cvs cv = some c ↔ s.cvs cv = some c))
      (hfollow : (s.threads t).pc.Follows pc) :
      Effect s t choice (s.writes t f cvs p pid ppid pc)
  | enrol {f : Fork} {k : Nat} {th : Thread} {pc : Pc}
      (hfork : (s.threads t).pc.forking = some (f, k)) (hpc : ∃ k', pc.forking = some (f, k'))
      (hth : th.pc = (s.threads f.thread).pc)
      (hfollow : (s.threads t).pc.Follows pc) :
      Effect s t choice
        (({ s with threads := Function.update s.threads f.thread th }).setPc t pc)
  | register {f : Fork} {i : Int} (hpc : (s.threads t).pc = .cpChild .table f i) :
      Effect s t choice (({ s with
        table := Function.update s.table (s.mem f.temp).pid (some f.temp)
        slot := Function.update s.slot (s.mem f.temp).pid (some (f.proc, .sound)) }).setPc t
        (.cpRelease f))
  | discard {f : Fork} {k : Nat} (hfork : (s.threads t).pc.forking = some (f, k)) (hk : k ≤ 2) :
      Effect s t choice ((({ s with alloc := Function.update s.alloc f.temp false }).freeThread
        f).setPc t .user)
  | abandon {f : Fork} (hfork : (s.threads t).pc.forking = some (f, 7))
      (hchoice : choice = .kmalloc false) : Effect s t choice ((s.freeThread f).setPc t .user)
  | start {f : Fork} (hpc : (s.threads t).pc = .tfRun f) :
      Effect s t choice
        (((s.setPc f.thread .user).setStage f.proc (.alive f.thread)).setPc t .user)

section Inversion
variable {s s' : State} {t : Nat} {choice : Choice} {pc₀ : Pc}

section
variable {pc : Pc} (hpc : (s.threads t).pc = pc₀) (hlive : pc₀.live = true)
  (hsame : pc.stand = pc₀.stand ∧ pc.forking = pc₀.forking)
include hpc hlive hsame

theorem Turn.mk_keep (harr : Arrives s t s.cs pc) : Turn s t s.sleepers s.cs pc :=
  ⟨hpc ▸ hlive,hpc ▸ hsame.1,hpc ▸ hsame.2,.keep,fun _ _ => rfl,harr⟩

theorem Effect.goto (harr : Arrives s t s.cs pc) : Effect s t choice (s.setPc t pc) :=
  @Effect.turn s t choice s.lock s.sleepers s.cs pc s.n (.mk_keep hpc hlive hsame harr)

theorem Effect.acquire (harr : Arrives s t (s.acquire t).cs pc) :
    Effect s t choice ((s.acquire t).setPc t pc) :=
  @Effect.turn s t choice (s.acquire t).lock s.sleepers (s.acquire t).cs pc s.n
    ⟨hpc ▸ hlive,hpc ▸ hsame.1,hpc ▸ hsame.2,.keep,fun _ hu => update_of_ne hu _ _,harr⟩

theorem Effect.release (harr : Arrives s t (s.release t).cs pc) :
    Effect s t choice ((s.release t).setPc t pc) :=
  @Effect.turn s t choice (s.release t).lock (s.release t).sleepers (s.release t).cs pc
    s.n
    ⟨hpc ▸ hlive,hpc ▸ hsame.1,hpc ▸ hsame.2,.release,fun _ hu => update_of_ne hu _ _,
      harr⟩

theorem Effect.sleepOnLock (harr : Arrives s t s.cs pc) :
    Effect s t choice ((s.sleep t .lock).setPc t pc) :=
  @Effect.turn s t choice s.lock (s.sleep t .lock).sleepers s.cs pc s.n
    ⟨hpc ▸ hlive,hpc ▸ hsame.1,hpc ▸ hsame.2,.lock,fun _ _ => rfl,harr⟩

end

theorem Effect.stay (hlive : (s.threads t).pc.live = true)
    (harr : Arrives s t s.cs (s.threads t).pc) : Effect s t choice s := by
  have := @Effect.goto s t choice _ _ rfl hlive ⟨rfl,rfl⟩ harr
  rwa [State.setPc_same] at this

theorem Effect.sleepStill (hlive : (s.threads t).pc.live = true)
    (harr : Arrives s t s.cs (s.threads t).pc) : Effect s t choice (s.sleep t .lock) := by
  have := @Effect.sleepOnLock s t choice _ _ rfl hlive ⟨rfl,rfl⟩ harr
  rwa [show (s.threads t).pc = ((s.sleep t .lock).threads t).pc from rfl,State.setPc_same] at this

theorem Effect.writeMem {f : Fork} {k : Nat} {p : Process} {pc : Pc}
    (hfork : (s.threads t).pc.forking = some (f, k)) (hk : k ≤ 4)
    (hpc : ∃ k', pc.forking = some (f, k'))
    (hfollow : (s.threads t).pc.Follows pc) :
    Effect s t choice ((s.setMem f.temp p).setPc t pc) := by
  have := @Effect.write s t choice f k s.cvs p (s.life f.proc).pid (s.life f.proc).ppid pc hfork hk hpc
    (fun _ _ _ => Iff.rfl) hfollow
  simpa [State.writes,State.setLife,State.setMem] using this

theorem Effect.of_childStmt {st : ChildStmt} {f : Fork} {i : Int}
    (hpc : (s.threads t).pc = .cpChild st f i) : Effect s t choice (childStmt s t f i st) := by
  have hfollow : ∀ {st' : ChildStmt}, (s.threads t).pc.Follows (.cpChild st' f i) := by
    intro st'
    refine ⟨fun st₁ g j heq => ?_,fun g k hk => ?_⟩
    · cases heq
      exact ⟨st,hpc⟩
    · cases st' <;> cases hk <;> decide
  cases st with
  | pid =>
    exact .write (k := 1) (by rw [hpc]; rfl) (by decide) ⟨2,rfl⟩ (fun _ _ _ => Iff.rfl) hfollow
  | test =>
    simp only [childStmt]
    split
    · exact .goto hpc rfl ⟨rfl,rfl⟩ trivial
    · exact .goto hpc rfl ⟨rfl,rfl⟩ (.inr ⟨_,hpc⟩)
  | ppid =>
    exact .write (k := 2) (by rw [hpc]; rfl) (by decide) ⟨3,rfl⟩ (fun _ _ _ => Iff.rfl) hfollow
  | status => exact .writeMem (k := 3) (by rw [hpc]; rfl) (by decide) ⟨4,rfl⟩ hfollow
  | exitcode | processPtr => exact .writeMem (k := 4) (by rw [hpc]; rfl) (by decide) ⟨4,rfl⟩ hfollow
  | arrayPtr => exact .enrol (k := 4) (by rw [hpc]; rfl) ⟨5,rfl⟩ rfl hfollow
  | threadPid => exact .enrol (k := 5) (by rw [hpc]; rfl) ⟨6,rfl⟩ rfl hfollow
  | table => exact .register hpc

theorem Effect.of_runStep (h : Agree s.forget) (hpc : (s.threads t).pc = pc₀)
    (hstep : runStep s t pc₀ = some s') : Effect s t choice s' := by
  cases pc₀ with
  | exitStatus code ptr => cases hstep; exact .stop hpc
  | exitCode code ptr => cases hstep; exact .code hpc
  | exitCv => cases hstep; exact .goto hpc rfl ⟨rfl,rfl⟩ ⟨rfl,rfl⟩
  | exitSignal cv =>
    obtain ⟨-,hstep⟩ := Option.ite_none_right_eq_some.mp hstep
    cases hstep; exact .signal hpc
  | lockCheck r =>
    obtain ⟨-,⟨⟩⟩ := Option.ite_none_left_eq_some.mp hstep
    cases r <;> exact .goto hpc rfl ⟨rfl,rfl⟩ trivial
  | lockTry r =>
    simp only [runStep] at hstep
    split at hstep
    · cases hstep
      refine .sleepStill ?_ ?_ <;> rw [hpc]
      · rfl
      · trivial
    · cases hstep
      cases r with
      | exit => exact .acquire hpc rfl ⟨rfl,rfl⟩ (update_self _ _ _)
      | wait w | child f => exact .acquire hpc rfl ⟨rfl,rfl⟩ trivial
  | scan i =>
    simp only [runStep] at hstep
    split at hstep <;> rename_i hi
    · cases hstep; exact .finish hpc hi
    · split at hstep <;> rename_i htab
      · cases hstep
        exact .pass (.inl hpc) fun c hc => absurd (htab.symm.trans hc) (fun h => by cases h)
      · cases hstep; exact .goto hpc rfl ⟨rfl,rfl⟩ hpc
  | reapTest i =>
    simp only [runStep] at hstep
    split at hstep <;> rename_i htab
    · cases hstep
    · split at hstep <;> rename_i htest
      · cases hstep; exact .claim hpc htab htest.1 htest.2
      · cases hstep
        refine .pass (.inr hpc) fun c hc => ?_
        rw [htab] at hc
        exact Option.some.inj hc ▸ htest
  | reapPid i =>
    simp only [runStep] at hstep
    split at hstep
    · cases hstep
    · rename_i c htab
      obtain ⟨-,⟨⟩⟩ := Option.ite_none_right_eq_some.mp hstep
      exact @Effect.turn s t choice s.lock s.sleepers s.cs (.reapCv i)
        (update s.n t (s.n t ++ [(s.mem c).pid])) (.mk_keep hpc rfl ⟨rfl,rfl⟩ ⟨hpc,rfl⟩)
  | reapCv i =>
    simp only [runStep] at hstep
    split at hstep <;> rename_i htab
    · cases hstep
    · cases hstep; exact .spoil hpc htab
  | reapFree i =>
    simp only [runStep] at hstep
    split at hstep <;> rename_i htab
    · cases hstep; exact .goto hpc rfl ⟨rfl,rfl⟩ ⟨hpc,rfl⟩
    · cases hstep; exact .free hpc htab
  | reapNull i => cases hstep; exact .null hpc
  | exitRelease => cases hstep; exact .retire hpc
  | getTest i | getRead i =>
    simp only [runStep] at hstep
    split at hstep <;> cases hstep <;> exact .goto hpc rfl ⟨rfl,rfl⟩ trivial
  | ppidNe w =>
    simp only [runStep] at hstep
    split at hstep <;> rename_i hne
    · cases hstep; exact .goto hpc rfl ⟨rfl,rfl⟩ trivial
    · cases hstep; exact .goto hpc rfl ⟨rfl,rfl⟩ ⟨hpc,not_not.mp hne⟩
  | ppidEq w =>
    simp only [runStep] at hstep
    split at hstep
    · cases hstep; exact .goto hpc rfl ⟨rfl,rfl⟩ (congrArg Pc.accepted hpc)
    · cases hstep; exact .goto hpc rfl ⟨rfl,rfl⟩ trivial
  | statusTest w =>
    simp only [runStep] at hstep
    split at hstep <;> rename_i hst
    · cases hstep; exact .goto hpc rfl ⟨rfl,rfl⟩ (congrArg Pc.accepted hpc)
    · cases hstep; exact .goto hpc rfl ⟨rfl,rfl⟩ ⟨hpc,hst⟩
  | cvLoad w => cases hstep; exact .goto hpc rfl ⟨rfl,rfl⟩ ⟨hpc,rfl⟩
  | cvHold w cv =>
    obtain ⟨-,hstep⟩ := Option.ite_none_right_eq_some.mp hstep
    cases hstep; exact .goto hpc rfl ⟨rfl,rfl⟩ hpc
  | cvSleep w cv =>
    cases hstep
    exact @Effect.turn s t choice (s.release t).lock ((s.release t).sleep t (.cv cv)).sleepers
      (s.release t).cs (.cvAsleep w cv) s.n ⟨by rw [hpc]; rfl,by rw [hpc]; rfl,by rw [hpc]; rfl,.cv rfl,
        fun _ hu => update_of_ne hu _ _,hpc⟩
  | cvAsleep w cv =>
    obtain ⟨-,hstep⟩ := Option.ite_none_left_eq_some.mp hstep
    split at hstep
    · cases hstep
      exact .sleepOnLock hpc rfl ⟨rfl,rfl⟩ (congrArg Pc.accepted hpc)
    · cases hstep; exact .acquire hpc rfl ⟨rfl,rfl⟩ (congrArg Pc.accepted hpc)
  | reacquire w =>
    simp only [runStep] at hstep
    split at hstep
    · cases hstep
      refine .sleepStill ?_ ?_ <;> rw [hpc]
      · rfl
      · exact congrArg Pc.accepted hpc
    · cases hstep; exact .acquire hpc rfl ⟨rfl,rfl⟩ (congrArg Pc.accepted hpc)
  | refuse | firstRelease w v | secondRelease w v | cpRelease f =>
    cases hstep; exact .release hpc rfl ⟨rfl,rfl⟩ trivial
  | stopRead w | wokenRead w | waitDone w v => cases hstep; exact .goto hpc rfl ⟨rfl,rfl⟩ trivial
  | cpScan f i =>
    simp only [runStep] at hstep
    split at hstep
    · cases hstep; exact .goto hpc rfl ⟨rfl,rfl⟩ (.inl rfl)
    · split at hstep
      · cases hstep; exact .goto hpc rfl ⟨rfl,rfl⟩ (.inl rfl)
      · cases hstep; exact .goto hpc rfl ⟨rfl,rfl⟩ trivial
  | cpChild st f i => cases hstep; exact .of_childStmt hpc
  | fullCv f =>
    cases hstep
    have hm := (h.threads t).fork f 2 ((Pc.forking_forget _).trans (by rw [hpc]; rfl))
    have hcv : s.cvs (s.mem f.temp).arrayCv = some f.temp := hm.cv (by decide)
    have := @Effect.write s t choice f 2 (update s.cvs (s.mem f.temp).arrayCv none)
      (s.mem f.temp) (s.life f.proc).pid (s.life f.proc).ppid (.fullFree f) (by rw [hpc]; rfl)
      (by decide) ⟨0,rfl⟩ (fun cv c hc => ?_) ⟨(fun _ _ _ h => by cases h),fun g k hk => by cases hk; decide⟩
    · simpa [State.writes,State.setLife,State.setMem] using this
    · rcases eq_or_ne cv (s.mem f.temp).arrayCv with rfl | hne
      · rw [update_self,hcv]
        exact ⟨(fun h => by cases h),fun hx => absurd (Option.some.inj hx).symm hc⟩
      · rw [update_of_ne hne]
  | fullFree f => cases hstep; exact .discard (k := 0) (by rw [hpc]; rfl) (by decide)
  | _ => cases hstep

theorem Effect.of_userCall (hpc : (s.threads t).pc = .user)
    (hstep : userCall s t choice = some s') : Effect s t choice s' := by
  have hlive : (s.threads t).pc.live = true := by rw [hpc]; rfl
  have harr : Arrives s t s.cs (s.threads t).pc := by rw [hpc]; trivial
  cases choice with
  | exit code => cases hstep; exact .call hpc rfl
  | waitpid pid options statusNull =>
    simp only [userCall] at hstep
    split at hstep
    · cases hstep; exact .stay hlive harr
    · cases hstep; exact .goto hpc rfl ⟨rfl,rfl⟩ trivial
  | fork thread temp =>
    cases temp with
    | none => cases hstep; exact .stay hlive harr
    | some temp =>
      simp only [userCall] at hstep
      split at hstep <;> rename_i hnew
      · cases hstep; exact .fork hpc hnew.1 hnew.2 rfl
      · cases hstep
  | ret =>
    obtain ⟨-,hstep⟩ := Option.ite_none_right_eq_some.mp hstep
    cases hstep; exact .leave hpc rfl
  | _ => cases hstep

theorem Effect.of_cvCreate {f : Fork} {cv : Option Nat} (hpc : (s.threads t).pc = .cpCv f)
    (hstep : cvCreate s t f cv = some s') : Effect s t choice s' := by
  cases cv with
  | none => cases hstep; exact .discard (k := 0) (by rw [hpc]; rfl) (by decide)
  | some cv =>
    simp only [cvCreate] at hstep
    split at hstep <;> rename_i hfree
    · cases hstep
      have := @Effect.write s t choice f 0 (update s.cvs cv (some f.temp))
        { s.mem f.temp with arrayCv := cv } (s.life f.proc).pid (s.life f.proc).ppid
        (.lockCheck (.child f)) (by rw [hpc]; rfl) (by decide) ⟨1,rfl⟩ (fun cv' c hc => ?_)
        ⟨(fun _ _ _ h => by cases h),fun g k hk => by cases hk; decide⟩
      · simpa [State.writes,State.setLife,State.setMem] using this
      · rcases eq_or_ne cv' cv with rfl | hne
        · rw [update_self,hfree]
          exact ⟨fun hx => absurd (Option.some.inj hx).symm hc,(fun h => by cases h)⟩
        · rw [update_of_ne hne]
    · cases hstep

theorem Effect.of_forkRest {f : Fork} {run ok : Bool} (hchoice : choice = .kmalloc ok)
    (hpc : (s.threads t).pc = if run then .tfRun f else .tfStack f) :
    Effect s t choice (forkRest s t f run ok) := by
  cases ok with
  | false =>
    refine .abandon ?_ hchoice
    rw [hpc]
    cases run <;> rfl
  | true =>
    cases run with
    | false => exact .goto hpc rfl ⟨rfl,rfl⟩ trivial
    | true => exact .start hpc

theorem effect_of_step (h : Agree s.forget) (hstep : step s (.thread t choice) = some s') :
    Effect s t choice s' := by
  obtain ⟨-,hmove⟩ := threadStep_cases hstep
  rcases hmove with ⟨hpc,hs⟩ | ⟨f,cv,hpc,-,hs⟩ | ⟨f,run,ok,hpc,hc,hs⟩ | ⟨-,hs⟩
  · exact .of_userCall hpc hs
  · exact .of_cvCreate hpc hs
  · exact hs ▸ .of_forkRest hc hpc
  · exact .of_runStep h rfl hs

end Inversion

end OS161.Proc
