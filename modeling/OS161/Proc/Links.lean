import OS161.Proc.Record
import OS161.Proc.Mutex

namespace OS161.Proc

open Function

inductive Role where
  | other
  | build (f : Fork) (k : Nat)
  | point (w : Wait) (accepted : Bool)
  | entry (i : Int) (passed : Bool)
  | null (i : Int)
  deriving DecidableEq, Repr

def Pc.role : Pc → Role
  | .cpCv f | .lockCheck (.child f) | .lockTry (.child f) | .cpScan f _ | .cpChild .pid f _ =>
    .build f 0
  | .cpChild .test f _ | .cpChild .ppid f _ | .fullCv f | .fullFree f => .build f 1
  | .cpChild .status f _ | .cpChild .exitcode f _ | .cpChild .processPtr f _
  | .cpChild .arrayPtr f _ => .build f 2
  | .cpChild .threadPid f _ => .build f 3
  | .cpChild .table f _ => .build f 4
  | .cpRelease f | .tfStack f | .tfRun f => .build f 5
  | .lockCheck (.wait w) | .lockTry (.wait w) | .ppidNe w => .point w false
  | .ppidEq w | .statusTest w | .stopRead w | .cvLoad w | .cvHold w _ | .cvSleep w _
  | .cvAsleep w _ | .reacquire w | .wokenRead w | .firstRelease w _ | .secondRelease w _
  | .waitDone w _ => .point w true
  | .reapTest i => .entry i false
  | .reapPid i | .reapCv i | .reapFree i => .entry i true
  | .reapNull i => .null i
  | _ => .other

def Pc.frees : Pc → Option Int
  | .reapFree i => some i
  | _ => none

structure Birth where
  parent : Nat
  pid : Int
  ppid : Int

structure View where
  threads : Nat → Thread
  table : Int → Option Nat
  slot : Int → Option (Nat × Health)
  next : Nat
  alloc : Nat → Bool
  procOf : Nat → Nat
  ids : Nat → Int × Int
  births : Nat → Birth

def State.view (s : State) : View where
  threads := s.threads
  table := s.table
  slot := s.slot
  next := s.next
  alloc := s.alloc
  procOf := s.procOf
  ids c := ((s.mem c).pid, (s.mem c).ppid)
  births n := ⟨(s.life n).parent, (s.life n).pid, (s.life n).ppid⟩

namespace View

def go (v : View) (t : Nat) (pc : Pc) : View :=
  { v with threads := Function.update v.threads t { v.threads t with pc := pc } }

def mark (v : View) (i : Int) (h : Health) : View :=
  { v with slot := Function.update v.slot i ((v.slot i).map fun x => (x.1, h)) }

def kfree (v : View) (c : Nat) : View := { v with alloc := Function.update v.alloc c false }

def clear (v : View) (i : Int) : View :=
  { v with table := Function.update v.table i none, slot := Function.update v.slot i none }

def fork (v : View) (t thread temp : Nat) : View :=
  { v with
    alloc := Function.update v.alloc temp true
    procOf := Function.update v.procOf temp v.next
    births := Function.update v.births v.next ⟨(v.threads t).proc, -1, -1⟩
    next := v.next + 1
    threads := Function.update (Function.update v.threads thread
      { v.threads thread with pc := .created t }) t
      { v.threads t with pc := .cpCv ⟨temp, thread, v.next⟩ } }

def setIds (v : View) (c : Nat) (x : Int × Int) : View :=
  { v with ids := Function.update v.ids c x }

def setBirth (v : View) (n : Nat) (b : Birth) : View :=
  { v with births := Function.update v.births n b }

def setThread (v : View) (u : Nat) (th : Thread) : View :=
  { v with threads := Function.update v.threads u th }

def register (v : View) (i : Int) (c n : Nat) : View :=
  { v with
    table := Function.update v.table i (some c)
    slot := Function.update v.slot i (some (n, .sound)) }

def role (v : View) (u : Nat) : Role := (v.threads u).pc.role

end View

namespace View
variable (v : View) (t u : Nat) (pc : Pc)

theorem threads_go_self : ((v.go t pc).threads t) = { v.threads t with pc := pc } := by
  simp [go]

variable {u t} in
theorem threads_go_ne (hne : u ≠ t) : (v.go t pc).threads u = v.threads u := by
  simp [go,update_of_ne hne]

theorem role_go_self : (v.go t pc).role t = pc.role := by
  simp [role,go]

variable {u t} in
theorem role_go_ne (hne : u ≠ t) : (v.go t pc).role u = v.role u := by
  simp [role,go,update_of_ne hne]

theorem proc_go : ((v.go t pc).threads u).proc = (v.threads u).proc := by
  rcases eq_or_ne u t with rfl | hne
  · rw [threads_go_self]
  · rw [threads_go_ne v pc hne]

variable {u t} in
theorem go_comm (hne : u ≠ t) (pc' : Pc) :
    (v.go u pc).go t pc' = (v.go t pc').go u pc := by
  simp [go,update_of_ne hne,update_of_ne hne.symm,
    update_comm hne]

theorem threads_setThread_self (th : Thread) : (v.setThread u th).threads u = th := by
  simp [setThread]

variable {u t} in
theorem threads_setThread_ne (th : Thread) (hne : u ≠ t) :
    (v.setThread t th).threads u = v.threads u := by
  simp [setThread,update_of_ne hne]

variable {u} in
theorem pc_setThread {th : Thread} (hpc : th.pc = (v.threads u).pc) (w : Nat) :
    ((v.setThread u th).threads w).pc = (v.threads w).pc := by
  rcases eq_or_ne w u with rfl | hne
  · rw [threads_setThread_self,hpc]
  · rw [threads_setThread_ne v th hne]

variable {u} in
theorem role_setThread {th : Thread} (hpc : th.pc = (v.threads u).pc) (w : Nat) :
    (v.setThread u th).role w = v.role w :=
  congrArg Pc.role (v.pc_setThread hpc w)

theorem slot_mark {i : Int} {h : Health} {j : Int} {n : Nat} {h' : Health}
    (hj : (v.mark i h).slot j = some (n, h')) :
    ∃ h₀, v.slot j = some (n, h₀) ∧ (j = i ∧ h' = h ∨ j ≠ i ∧ h' = h₀) := by
  rcases eq_or_ne j i with rfl | hne
  · simp only [mark,update_self,Option.map_eq_some_iff,Prod.exists,Prod.mk.injEq] at hj
    obtain ⟨n₀,h₀,hs,hn,hh⟩ := hj
    exact ⟨h₀,by rw [hs,hn],.inl ⟨rfl,hh.symm⟩⟩
  · have hslot : (v.mark i h).slot j = v.slot j := update_of_ne hne _ _
    exact ⟨h',hslot ▸ hj,.inr ⟨hne,rfl⟩⟩

variable {v} in
theorem slot_clear {i j : Int} {x : Nat × Health} (hj : (v.clear i).slot j = some x) :
    v.slot j = some x := by
  rcases eq_or_ne j i with rfl | hne
  · simp [clear] at hj
  · simpa [clear,update_of_ne hne] using hj

variable {v} in
theorem slot_register {i j : Int} {c m n : Nat} {h : Health}
    (hj : (v.register i c m).slot j = some (n, h)) :
    (j = i ∧ n = m ∧ h = .sound) ∨ (j ≠ i ∧ v.slot j = some (n, h)) := by
  rcases eq_or_ne j i with rfl | hne
  · simp only [register,update_self,Option.some.injEq,Prod.mk.injEq] at hj
    exact .inl ⟨rfl,hj.1.symm,hj.2.symm⟩
  · exact .inr ⟨hne,by simpa [register,update_of_ne hne] using hj⟩

theorem fst_mark (i j : Int) (h : Health) :
    ((v.mark i h).slot j).map (·.1) = (v.slot j).map (·.1) := by
  rcases eq_or_ne j i with rfl | hne
  · simp [mark,comp_def]
  · simp [mark,update_of_ne hne]

end View

theorem Pc.live_of_role {pc : Pc} (h : pc.role ≠ .other) : pc.live = true := by
  cases pc <;> first | rfl | exact absurd rfl h

theorem Pc.frees_of_build {pc : Pc} {f : Fork} {k : Nat} (h : pc.role = .build f k) :
    pc.frees = none := by
  cases pc <;> first | rfl | cases h

theorem View.live_of_build {v : View} {t : Nat} {f : Fork} {k : Nat} (h : v.role t = .build f k) :
    (v.threads t).pc.live = true :=
  Pc.live_of_role fun heq => by rw [View.role,heq] at h; cases h

inductive Move (v : View) (t : Nat) : View → Prop
  | stay (hfrees : (v.threads t).pc.frees = none) : Move v t v
  | turn {pc : Pc} (hlive : (v.threads t).pc.live = true) (hfrees : (v.threads t).pc.frees = none)
      (hrole : pc.role = .other ∨ pc.role = v.role t) : Move v t (v.go t pc)
  | look {i : Int} (hpc : (v.threads t).pc = .scan i) (htab : v.table i ≠ none) :
      Move v t (v.go t (.reapTest i))
  | fetch {pid : Int} {c : Nat} {parent : Bool} (hpc : (v.threads t).pc = .getRead pid)
      (htab : v.table pid = some c) :
      Move v t (v.go t (.lockCheck (.wait ⟨c, ((v.slot pid).map (·.1)).getD v.next, parent⟩)))
  | accept {w : Wait} (hpc : (v.threads t).pc = .ppidNe w)
      (hids : (v.ids w.child).2 = (v.threads t).pid) : Move v t (v.go t (.ppidEq w))
  | pass {i : Int} {c : Nat} (hpc : (v.threads t).pc = .reapTest i) (htab : v.table i = some c)
      (hids : (v.ids c).2 = (v.threads t).pid) : Move v t (v.go t (.reapPid i))
  | spoil {i : Int} (hpc : (v.threads t).pc = .reapCv i) :
      Move v t ((v.mark i .cvGone).go t (.reapFree i))
  | free {i : Int} {c : Nat} (hpc : (v.threads t).pc = .reapFree i) (htab : v.table i = some c) :
      Move v t (((v.kfree c).mark i .freed).go t (.reapNull i))
  | skip {i : Int} (hpc : (v.threads t).pc = .reapFree i) (htab : v.table i = none) :
      Move v t (v.go t (.reapNull i))
  | drop {i : Int} (hpc : (v.threads t).pc = .reapNull i) :
      Move v t ((v.clear i).go t (.scan (i + 1)))
  | fork {thread temp : Nat} (hpc : (v.threads t).pc = .user)
      (hthread : (v.threads thread).pc = .unborn ∨ (v.threads thread).pc = .zombie)
      (htemp : v.alloc temp = false) : Move v t (v.fork t thread temp)
  | number {f : Fork} {i : Int} (hpc : (v.threads t).pc = .cpChild .pid f i) :
      Move v t (((v.setIds f.temp (i, (v.ids f.temp).2)).setBirth f.proc
        { v.births f.proc with pid := i }).go t (.cpChild .test f i))
  | descend {f : Fork} {i : Int} (hpc : (v.threads t).pc = .cpChild .ppid f i) :
      Move v t (((v.setIds f.temp ((v.ids f.temp).1, (v.threads t).pid)).setBirth f.proc
        { v.births f.proc with ppid := (v.threads t).pid }).go t (.cpChild .status f i))
  | attach {f : Fork} {i : Int} (hpc : (v.threads t).pc = .cpChild .arrayPtr f i) :
      Move v t ((v.setThread f.thread
        { v.threads f.thread with arrayPtr := f.temp, proc := f.proc }).go t
        (.cpChild .threadPid f i))
  | label {f : Fork} {i : Int} (hpc : (v.threads t).pc = .cpChild .threadPid f i) :
      Move v t ((v.setThread f.thread
        { v.threads f.thread with pid := (v.ids f.temp).1 }).go t (.cpChild .table f i))
  | register {f : Fork} {i : Int} (hpc : (v.threads t).pc = .cpChild .table f i) :
      Move v t ((v.register (v.ids f.temp).1 f.temp f.proc).go t (.cpRelease f))
  | start {f : Fork} (hpc : (v.threads t).pc = .tfRun f) :
      Move v t ((v.go f.thread .user).go t .user)
  | discard {f : Fork} {k : Nat} (hrole : v.role t = .build f k) (hk : k < 5) :
      Move v t (((v.kfree f.temp).go f.thread .unborn).go t .user)
  | abandon {f : Fork} (hrole : v.role t = .build f 5) :
      Move v t ((v.go f.thread .unborn).go t .user)

section
variable {s s₁ s' : State} {t : Nat}

theorem view_setMem {c : Nat} {p : Process} (hpid : p.pid = (s.mem c).pid)
    (hppid : p.ppid = (s.mem c).ppid) : (s.setMem c p).view = s.view := by
  have hids : (fun x => (((s.setMem c p).mem x).pid, ((s.setMem c p).mem x).ppid)) =
      fun x => ((s.mem x).pid, (s.mem x).ppid) := by
    funext x
    rcases eq_or_ne x c with rfl | hne
    · simp [State.setMem,hpid,hppid]
    · simp [State.setMem,update_of_ne hne]
  exact congrArg (fun ids => { s.view with ids := ids }) hids

theorem view_setLife {n : Nat} {l : Life} (hparent : l.parent = (s.life n).parent)
    (hpid : l.pid = (s.life n).pid) (hppid : l.ppid = (s.life n).ppid) :
    (s.setLife n l).view = s.view := by
  have hbirths : (s.setLife n l).view.births = s.view.births := by
    funext x
    rcases eq_or_ne x n with rfl | hne
    · simp [State.view,State.setLife,hparent,hpid,hppid]
    · simp [State.view,State.setLife,update_of_ne hne]
  exact congrArg (fun b => { s.view with births := b }) hbirths

theorem view_setStage (s : State) (n : Nat) (stage : Stage) :
    (s.setStage n stage).view = s.view :=
  view_setLife rfl rfl rfl

theorem view_reapStage (s : State) (i : Int) (stage : Stage) :
    (reapStage s i stage).view = s.view := by
  unfold reapStage
  split
  · rfl
  · exact view_setStage _ _ _

theorem view_setIds {c : Nat} {p : Process} {x : Int × Int} (hx : (p.pid, p.ppid) = x) :
    (s.setMem c p).view = s.view.setIds c x := by
  have hids : (s.setMem c p).view.ids = update s.view.ids c x := by
    funext y
    rcases eq_or_ne y c with rfl | hne
    · simp [State.view,State.setMem,hx]
    · simp [State.view,State.setMem,update_of_ne hne]
  exact congrArg (fun ids => { s.view with ids := ids }) hids

theorem view_setBirth {n : Nat} {l : Life} {b : Birth} (hb : ⟨l.parent, l.pid, l.ppid⟩ = b) :
    (s.setLife n l).view = s.view.setBirth n b := by
  have hbirths : (s.setLife n l).view.births = update s.view.births n b := by
    funext y
    rcases eq_or_ne y n with rfl | hne
    · simp [State.view,State.setLife,hb]
    · simp [State.view,State.setLife,update_of_ne hne]
  exact congrArg (fun b => { s.view with births := b }) hbirths

theorem view_startFork (s : State) (t thread temp : Nat) :
    (startFork s t thread temp).view = s.view.fork t thread temp := by
  have hbirths : (startFork s t thread temp).view.births =
      update s.view.births s.next ⟨(s.threads t).proc,-1,-1⟩ := by
    funext y
    rcases eq_or_ne y s.next with rfl | hne
    · simp [State.view,startFork]
    · simp [State.view,startFork,update_of_ne hne]
  exact congrArg (fun b => { (s.view.fork t thread temp) with births := b }) hbirths

theorem view_freeThread (s : State) (f : Fork) :
    (s.freeThread f).view = s.view.go f.thread .unborn :=
  view_setStage _ _ _

theorem view_setPc (s : State) (t : Nat) (pc : Pc) : (s.setPc t pc).view = s.view.go t pc := rfl

theorem Move.leave {pc pc' : Pc} (hv : s₁.view = s.view) (hpc : (s.threads t).pc = pc)
    (hlive : pc.live = true) (hfrees : pc.frees = none) (hrole : pc'.role = .other) :
    Move s.view t (s₁.setPc t pc').view := by
  rw [view_setPc,hv]
  exact .turn (hpc ▸ hlive) (hpc ▸ hfrees) (.inl hrole)

theorem Move.keep {pc pc' : Pc} (hv : s₁.view = s.view) (hpc : (s.threads t).pc = pc)
    (hlive : pc.live = true) (hfrees : pc.frees = none) (hrole : pc'.role = pc.role) :
    Move s.view t (s₁.setPc t pc').view := by
  rw [view_setPc,hv]
  exact .turn (hpc ▸ hlive) (hpc ▸ hfrees) (.inr (hrole.trans (congrArg Pc.role hpc.symm)))

end

section Simulation
variable {s s' : State} {t : Nat}

theorem Move.of_childStmt {st : ChildStmt} {f : Fork} {i : Int}
    (hpc : (s.threads t).pc = .cpChild st f i) :
    Move s.view t (childStmt s t f i st).view := by
  cases st with
  | pid =>
    have hview : (childStmt s t f i .pid).view =
        ((s.view.setIds f.temp (i, (s.view.ids f.temp).2)).setBirth f.proc
          { s.view.births f.proc with pid := i }).go t (.cpChild .test f i) := by
      rw [childStmt,view_setPc,view_setBirth rfl,view_setIds rfl]
      rfl
    rw [hview]
    exact .number hpc
  | test =>
    simp only [childStmt]
    split
    · exact .keep rfl hpc rfl rfl rfl
    · exact .keep rfl hpc rfl rfl rfl
  | ppid =>
    have hview : (childStmt s t f i .ppid).view =
        ((s.view.setIds f.temp ((s.view.ids f.temp).1, (s.threads t).pid)).setBirth f.proc
          { s.view.births f.proc with ppid := (s.threads t).pid }).go t (.cpChild .status f i) := by
      rw [childStmt,view_setPc,view_setBirth rfl,view_setIds rfl]
      rfl
    rw [hview]
    exact .descend hpc
  | status | exitcode | processPtr => exact .keep (view_setMem rfl rfl) hpc rfl rfl rfl
  | arrayPtr => exact .attach hpc
  | threadPid => exact .label hpc
  | table => exact .register hpc

theorem Move.of_runStep {pc : Pc} (hpc : (s.threads t).pc = pc) (hstep : runStep s t pc = some s') :
    Move s.view t s'.view := by
  cases pc with
  | exitStatus code ptr | exitCode code ptr =>
    cases hstep
    refine .leave ?_ hpc rfl rfl rfl
    refine (view_setLife ?_ ?_ ?_).trans (view_setMem ?_ ?_) <;> rfl
  | exitCv | refuse | waitDone w v =>
    cases hstep
    exact .leave rfl hpc rfl rfl rfl
  | exitSignal cv =>
    obtain ⟨-,⟨⟩⟩ := Option.ite_none_right_eq_some.mp hstep
    exact .leave rfl hpc rfl rfl rfl
  | lockCheck r =>
    obtain ⟨-,⟨⟩⟩ := Option.ite_none_left_eq_some.mp hstep
    cases r <;> exact .keep rfl hpc rfl rfl rfl
  | lockTry r =>
    simp only [runStep] at hstep
    split at hstep
    · cases hstep
      exact .stay (congrArg Pc.frees hpc)
    · cases hstep
      cases r with
      | exit => exact .leave rfl hpc rfl rfl rfl
      | wait w | child f => exact .keep rfl hpc rfl rfl rfl
  | scan i =>
    simp only [runStep] at hstep
    split at hstep
    · cases hstep
      exact .leave rfl hpc rfl rfl rfl
    · split at hstep <;> rename_i htab
      · cases hstep
        exact .leave rfl hpc rfl rfl rfl
      · cases hstep
        exact .look hpc htab
  | reapTest i =>
    simp only [runStep] at hstep
    split at hstep
    · cases hstep
    · rename_i c htab
      split at hstep <;> rename_i hmatch
      · cases hstep
        rw [view_setPc,view_reapStage]
        exact .pass hpc htab hmatch.1
      · cases hstep
        exact .leave rfl hpc rfl rfl rfl
  | reapPid i =>
    simp only [runStep] at hstep
    split at hstep
    · cases hstep
    · obtain ⟨-,⟨⟩⟩ := Option.ite_none_right_eq_some.mp hstep
      exact .keep rfl hpc rfl rfl rfl
  | reapCv i =>
    simp only [runStep] at hstep
    split at hstep
    · cases hstep
    · cases hstep
      exact .spoil hpc
  | reapFree i =>
    simp only [runStep] at hstep
    split at hstep
    · rename_i htab
      cases hstep
      exact .skip hpc htab
    · rename_i c htab
      cases hstep
      exact .free hpc htab
  | reapNull i =>
    cases hstep
    have hview : (({ reapStage s i .gone with
        table := update s.table i none
        slot := update s.slot i none } : State).setPc t (.scan (i + 1))).view =
        (s.view.clear i).go t (.scan (i + 1)) := by
      rw [view_setPc]
      exact congrArg (fun v => (View.go { v with
        table := update s.table i none
        slot := update s.slot i none } t (.scan (i + 1)))) (view_reapStage s i .gone)
    rw [hview]
    exact .drop hpc
  | exitRelease =>
    cases hstep
    exact .leave (view_setStage _ _ _) hpc rfl rfl rfl
  | getTest pid =>
    simp only [runStep] at hstep
    split at hstep
    · cases hstep
      exact .leave rfl hpc rfl rfl rfl
    · cases hstep
      exact .leave rfl hpc rfl rfl rfl
  | getRead pid =>
    simp only [runStep] at hstep
    split at hstep
    · cases hstep
      exact .leave rfl hpc rfl rfl rfl
    · rename_i c htab
      cases hstep
      exact .fetch hpc htab
  | ppidNe w =>
    simp only [runStep] at hstep
    split at hstep <;> rename_i hne
    · cases hstep
      exact .leave rfl hpc rfl rfl rfl
    · cases hstep
      exact .accept hpc (not_not.mp hne)
  | ppidEq w | statusTest w =>
    simp only [runStep] at hstep
    split at hstep
    · cases hstep
      exact .keep rfl hpc rfl rfl rfl
    · cases hstep
      exact .keep rfl hpc rfl rfl rfl
  | stopRead w | cvLoad w | cvSleep w cv | wokenRead w | firstRelease w v | secondRelease w v
  | cpRelease f | fullCv f =>
    cases hstep
    exact .keep rfl hpc rfl rfl rfl
  | cvHold w cv =>
    obtain ⟨-,⟨⟩⟩ := Option.ite_none_right_eq_some.mp hstep
    exact .keep rfl hpc rfl rfl rfl
  | cvAsleep w cv =>
    obtain ⟨-,hstep⟩ := Option.ite_none_left_eq_some.mp hstep
    split at hstep
    · cases hstep
      exact .keep rfl hpc rfl rfl rfl
    · cases hstep
      exact .keep rfl hpc rfl rfl rfl
  | reacquire w =>
    simp only [runStep] at hstep
    split at hstep
    · cases hstep
      exact .stay (congrArg Pc.frees hpc)
    · cases hstep
      exact .keep rfl hpc rfl rfl rfl
  | cpScan f i =>
    simp only [runStep] at hstep
    split at hstep
    · cases hstep
      exact .keep rfl hpc rfl rfl rfl
    · split at hstep
      · cases hstep
        exact .keep rfl hpc rfl rfl rfl
      · cases hstep
        exact .keep rfl hpc rfl rfl rfl
  | cpChild st f i =>
    cases hstep
    exact .of_childStmt hpc
  | fullFree f =>
    cases hstep
    have hrole : s.view.role t = .build f 1 := congrArg Pc.role hpc
    rw [view_setPc,view_freeThread]
    exact .discard hrole (by decide)
  | _ =>
    cases hstep

theorem Move.of_userCall {choice : Choice} (hpc : (s.threads t).pc = .user)
    (hstep : userCall s t choice = some s') : Move s.view t s'.view := by
  cases choice with
  | exit code =>
    cases hstep
    refine .leave ?_ hpc rfl rfl rfl
    refine view_setLife ?_ ?_ ?_ <;> rfl
  | waitpid pid options statusNull =>
    simp only [userCall] at hstep
    split at hstep
    · cases hstep
      exact .stay (congrArg Pc.frees hpc)
    · cases hstep
      exact .leave rfl hpc rfl rfl rfl
  | fork thread temp =>
    cases temp with
    | none =>
      cases hstep
      exact .stay (congrArg Pc.frees hpc)
    | some temp =>
      simp only [userCall] at hstep
      split at hstep <;> rename_i hfree
      · cases hstep
        rw [view_startFork]
        exact .fork hpc hfree.1 hfree.2
      · cases hstep
  | ret =>
    obtain ⟨-,⟨⟩⟩ := Option.ite_none_right_eq_some.mp hstep
    exact .leave rfl hpc rfl rfl rfl
  | _ => cases hstep

theorem Move.of_cvCreate {f : Fork} {cv : Option Nat} (hpc : (s.threads t).pc = .cpCv f)
    (hstep : cvCreate s t f cv = some s') : Move s.view t s'.view := by
  cases cv with
  | none =>
    cases hstep
    have hrole : s.view.role t = .build f 0 := congrArg Pc.role hpc
    rw [view_setPc,view_freeThread]
    exact .discard hrole (by decide)
  | some cv =>
    obtain ⟨-,⟨⟩⟩ := Option.ite_none_right_eq_some.mp hstep
    refine .keep ?_ hpc rfl rfl rfl
    exact view_setMem rfl rfl

theorem Move.of_forkRest {f : Fork} {run ok : Bool}
    (hpc : (s.threads t).pc = if run then .tfRun f else .tfStack f) :
    Move s.view t (forkRest s t f run ok).view := by
  have hrole : s.view.role t = .build f 5 := by
    unfold View.role
    show (s.threads t).pc.role = _
    rw [hpc]
    cases run <;> rfl
  cases ok with
  | false =>
    show Move s.view t ((s.freeThread f).setPc t .user).view
    rw [view_setPc,view_freeThread]
    exact .abandon hrole
  | true =>
    cases run with
    | false => exact .keep rfl hpc rfl rfl rfl
    | true =>
      show Move s.view t
        (((s.setPc f.thread .user).setStage f.proc (.alive f.thread)).setPc t .user).view
      rw [view_setPc,view_setStage,view_setPc]
      exact .start hpc

theorem move_of_step {choice : Choice} (hstep : step s (.thread t choice) = some s') :
    Move s.view t s'.view := by
  obtain ⟨-,hmove⟩ := threadStep_cases hstep
  rcases hmove with ⟨hpc,hs⟩ | ⟨f,cv,hpc,-,hs⟩ | ⟨f,run,ok,hpc,-,hs⟩ | ⟨-,hs⟩
  · exact .of_userCall hpc hs
  · exact .of_cvCreate hpc hs
  · exact hs ▸ .of_forkRest hpc
  · exact .of_runStep rfl hs

theorem view_of_scribble {c : Nat} {p : Process} (hstep : step s (.scribble c p) = some s') :
    s.view.alloc c = false ∧ s'.view = s.view.setIds c (p.pid, p.ppid) := by
  simp only [step] at hstep
  split at hstep <;> rename_i halloc
  · cases hstep
  · cases hstep
    exact ⟨(Bool.not_eq_true _).mp halloc,view_setIds rfl⟩

end Simulation

end OS161.Proc
