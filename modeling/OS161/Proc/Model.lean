import OS161.Kern

namespace OS161.Proc

def minpid : Int := 101

def maxpid : Int := 500

inductive Status where
  | running
  | stop
  deriving DecidableEq, Repr

structure Process where
  status : Status
  exitcode : Int
  pid : Int
  ppid : Int
  processPtr : Nat
  arrayCv : Nat
  deriving DecidableEq, Repr

structure Lock where
  held : Bool
  pointer : Option Nat
  deriving DecidableEq, Repr

inductive Chan where
  | lock
  | cv (addr : Nat)
  deriving DecidableEq, Repr

structure Wait where
  child : Nat
  proc : Nat
  parent : Bool
  deriving DecidableEq, Repr

structure Fork where
  temp : Nat
  thread : Nat
  proc : Nat
  deriving DecidableEq, Repr

inductive Ret where
  | exit
  | wait (w : Wait)
  | child (f : Fork)
  deriving DecidableEq, Repr

inductive ChildStmt where
  | pid | test | ppid | status | exitcode | processPtr | arrayPtr | threadPid | table
  deriving DecidableEq, Repr

inductive Pc where
  | unborn
  | created (t : Nat)
  | user
  | zombie
  | exitStatus (code : Int) (ptr : Nat)
  | exitCode (code : Int) (ptr : Nat)
  | exitCv
  | exitSignal (cv : Nat)
  | lockCheck (r : Ret)
  | lockTry (r : Ret)
  | scan (i : Int)
  | reapTest (i : Int)
  | reapPid (i : Int)
  | reapCv (i : Int)
  | reapFree (i : Int)
  | reapNull (i : Int)
  | exitRelease
  | getTest (pid : Int)
  | getRead (pid : Int)
  | ppidNe (w : Wait)
  | refuse
  | ppidEq (w : Wait)
  | statusTest (w : Wait)
  | stopRead (w : Wait)
  | cvLoad (w : Wait)
  | cvHold (w : Wait) (cv : Nat)
  | cvSleep (w : Wait) (cv : Nat)
  | cvAsleep (w : Wait) (cv : Nat)
  | reacquire (w : Wait)
  | wokenRead (w : Wait)
  | firstRelease (w : Wait) (v : Int)
  | secondRelease (w : Wait) (v : Option Int)
  | waitDone (w : Wait) (v : Option Int)
  | cpCv (f : Fork)
  | cpScan (f : Fork) (i : Int)
  | cpChild (st : ChildStmt) (f : Fork) (i : Int)
  | cpRelease (f : Fork)
  | fullCv (f : Fork)
  | fullFree (f : Fork)
  | tfStack (f : Fork)
  | tfRun (f : Fork)
  deriving DecidableEq, Repr

structure Thread where
  pid : Int
  arrayPtr : Nat
  proc : Nat
  pc : Pc
  deriving DecidableEq, Repr

inductive Stage where
  | unused
  | making (t : Nat)
  | alive (t : Nat)
  | ended
  | reaping (t : Nat)
  | gone
  | lost
  deriving DecidableEq, Repr

inductive Phase where
  | running
  | stopping
  | exited
  deriving DecidableEq, Repr

structure Life where
  stage : Stage
  parent : Nat
  pid : Int
  ppid : Int
  phase : Phase
  exitArg : Option Int
  deriving DecidableEq, Repr

inductive Health where
  | sound
  | cvGone
  | freed
  deriving DecidableEq, Repr

structure State where
  lock : Lock
  sleepers : List (Nat × Chan)
  table : Int → Option Nat
  mem : Nat → Process
  alloc : Nat → Bool
  cvs : Nat → Option Nat
  threads : Nat → Thread
  cs : Nat → Bool
  life : Nat → Life
  procOf : Nat → Nat
  slot : Int → Option (Nat × Health)
  next : Nat
  -- n[0], ..., n[j - 1] of the thread_exit that each thread is in
  n : Nat → List Int

namespace State

def setPc (s : State) (t : Nat) (pc : Pc) : State :=
  { s with threads := Function.update s.threads t { s.threads t with pc := pc } }

def setMem (s : State) (c : Nat) (p : Process) : State :=
  { s with mem := Function.update s.mem c p }

def setLife (s : State) (n : Nat) (l : Life) : State :=
  { s with life := Function.update s.life n l }

def setStage (s : State) (n : Nat) (stage : Stage) : State :=
  s.setLife n { s.life n with stage := stage }

def setHealth (s : State) (i : Int) (health : Health) : State :=
  { s with slot := Function.update s.slot i ((s.slot i).map fun x => (x.1, health)) }

def asleep (s : State) (t : Nat) : Bool := s.sleepers.any (·.1 = t)

def acquire (s : State) (t : Nat) : State :=
  { s with lock := ⟨true, some t⟩, cs := Function.update s.cs t true }

def release (s : State) (t : Nat) : State :=
  { s with
    lock := ⟨false, none⟩
    sleepers := s.sleepers.filter (·.2 ≠ .lock)
    cs := Function.update s.cs t false }

def sleep (s : State) (t : Nat) (chan : Chan) : State :=
  { s with sleepers := s.sleepers ++ [(t, chan)] }

def wakeupSingle (s : State) (chan : Chan) : State :=
  { s with sleepers := s.sleepers.eraseP (·.2 = chan) }

def freeThread (s : State) (f : Fork) : State :=
  (s.setPc f.thread .unborn).setStage f.proc .lost

end State

inductive Choice where
  | run
  | exit (code : Int)
  | waitpid (pid options : Int) (statusNull : Bool)
  | fork (thread : Nat) (temp : Option Nat)
  | ret
  | cvCreate (addr : Option Nat)
  | kmalloc (ok : Bool)
  deriving DecidableEq, Repr

def afterAcquire : Ret → Pc
  | .exit => .exitCv
  | .wait w => .ppidNe w
  | .child f => .cpScan f minpid

def startFork (s : State) (t thread temp : Nat) : State :=
  let n := s.next
  { s with
    alloc := Function.update s.alloc temp true
    procOf := Function.update s.procOf temp n
    life := Function.update s.life n
      ⟨.making t, (s.threads t).proc, -1, -1, .running, none⟩
    next := n + 1
    threads := Function.update (Function.update s.threads thread
      { s.threads thread with pc := .created t }) t
      { s.threads t with pc := .cpCv ⟨temp, thread, n⟩ } }

def userCall (s : State) (t : Nat) : Choice → Option State
  | .exit code =>
    let th := s.threads t
    some ((s.setLife th.proc { s.life th.proc with exitArg := some code }).setPc t
      (.exitStatus code th.arrayPtr))
  | .waitpid pid options statusNull =>
    if options ≠ 0 ∨ statusNull = true ∨ maxpid < pid ∨ pid < minpid then some s
    else some (s.setPc t (.getTest pid))
  | .fork _ none => some s
  | .fork thread (some temp) =>
    if ((s.threads thread).pc = .unborn ∨ (s.threads thread).pc = .zombie) ∧ s.alloc temp = false
    then some (startFork s t thread temp)
    else none
  | .ret =>
    if minpid ≤ (s.threads t).pid ∧ (s.threads t).pid ≤ maxpid then
      some (({ s with n := Function.update s.n t [] }).setPc t (.scan minpid))
    else none
  | _ => none

def childStmt (s : State) (t : Nat) (f : Fork) (i : Int) : ChildStmt → State
  | .pid =>
    ((s.setMem f.temp { s.mem f.temp with pid := i }).setLife f.proc
      { s.life f.proc with pid := i }).setPc t (.cpChild .test f i)
  | .test =>
    if (s.mem f.temp).pid = -1 then s.setPc t (.fullCv f) else s.setPc t (.cpChild .ppid f i)
  | .ppid =>
    ((s.setMem f.temp { s.mem f.temp with ppid := (s.threads t).pid }).setLife f.proc
      { s.life f.proc with ppid := (s.threads t).pid }).setPc t (.cpChild .status f i)
  | .status =>
    (s.setMem f.temp { s.mem f.temp with status := .running }).setPc t (.cpChild .exitcode f i)
  | .exitcode =>
    (s.setMem f.temp { s.mem f.temp with exitcode := 0 }).setPc t (.cpChild .processPtr f i)
  | .processPtr =>
    (s.setMem f.temp { s.mem f.temp with processPtr := f.thread }).setPc t
      (.cpChild .arrayPtr f i)
  | .arrayPtr =>
    ({ s with
      threads := Function.update s.threads f.thread
        { s.threads f.thread with arrayPtr := f.temp, proc := f.proc } }).setPc t
      (.cpChild .threadPid f i)
  | .threadPid =>
    ({ s with
      threads := Function.update s.threads f.thread
        { s.threads f.thread with pid := (s.mem f.temp).pid } }).setPc t (.cpChild .table f i)
  | .table =>
    ({ s with
      table := Function.update s.table (s.mem f.temp).pid (some f.temp)
      slot := Function.update s.slot (s.mem f.temp).pid (some (f.proc, .sound)) }).setPc t
      (.cpRelease f)

def reapStage (s : State) (i : Int) (stage : Stage) : State :=
  match s.slot i with
  | none => s
  | some (n, _) => s.setStage n stage

def runStep (s : State) (t : Nat) : Pc → Option State
  | .exitStatus code ptr =>
    let n := (s.threads t).proc
    some (((s.setMem ptr { s.mem ptr with status := .stop }).setLife n
      { s.life n with phase := .stopping }).setPc t (.exitCode code ptr))
  | .exitCode code ptr =>
    let n := (s.threads t).proc
    some (((s.setMem ptr { s.mem ptr with exitcode := code }).setLife n
      { s.life n with phase := .exited }).setPc t (.lockCheck .exit))
  | .lockCheck r => if s.lock.pointer = some t then none else some (s.setPc t (.lockTry r))
  | .lockTry r =>
    if s.lock.held then some (s.sleep t .lock) else some ((s.acquire t).setPc t (afterAcquire r))
  | .exitCv => some (s.setPc t (.exitSignal (s.mem (s.threads t).arrayPtr).arrayCv))
  | .exitSignal cv =>
    if minpid ≤ (s.threads t).pid ∧ (s.threads t).pid ≤ maxpid then
      some (({ s.wakeupSingle (.cv cv) with n := Function.update s.n t [] }).setPc t (.scan minpid))
    else none
  | .scan i =>
    if maxpid < i then some (s.setPc t .exitRelease)
    else if s.table i = none then some (s.setPc t (.scan (i + 1)))
    else some (s.setPc t (.reapTest i))
  | .reapTest i =>
    match s.table i with
    | none => none
    | some c =>
      if (s.mem c).ppid = (s.threads t).pid ∧ (s.mem c).status = .stop then
        some ((reapStage s i (.reaping t)).setPc t (.reapPid i))
      else some (s.setPc t (.scan (i + 1)))
  | .reapPid i =>
    match s.table i with
    | none => none
    | some c =>
      if (s.n t).length < 20 then
        some (({ s with n := Function.update s.n t (s.n t ++ [(s.mem c).pid]) }).setPc t
          (.reapCv i))
      else none
  | .reapCv i =>
    match s.table i with
    | none => none
    | some c =>
      some ((({ s with cvs := Function.update s.cvs (s.mem c).arrayCv none }).setHealth i
        .cvGone).setPc t (.reapFree i))
  | .reapFree i =>
    match s.table i with
    | none => some (s.setPc t (.reapNull i))
    | some c =>
      some ((({ s with alloc := Function.update s.alloc c false }).setHealth i .freed).setPc t
        (.reapNull i))
  | .reapNull i =>
    some (({ reapStage s i .gone with
      table := Function.update s.table i none
      slot := Function.update s.slot i none }).setPc t (.scan (i + 1)))
  | .exitRelease =>
    some (((s.release t).setStage (s.threads t).proc .ended).setPc t .zombie)
  | .getTest pid => if s.table pid = none then some (s.setPc t .user) else some (s.setPc t (.getRead pid))
  | .getRead pid =>
    match s.table pid with
    | none => some (s.setPc t .user)
    | some c =>
      let n := ((s.slot pid).map (·.1)).getD s.next
      some (s.setPc t (.lockCheck (.wait ⟨c, n, (s.life n).parent = (s.threads t).proc⟩)))
  | .ppidNe w =>
    if (s.mem w.child).ppid ≠ (s.threads t).pid then some (s.setPc t .refuse)
    else some (s.setPc t (.ppidEq w))
  | .refuse => some ((s.release t).setPc t .user)
  | .ppidEq w =>
    if (s.mem w.child).ppid = (s.threads t).pid then some (s.setPc t (.statusTest w))
    else some (s.setPc t (.secondRelease w none))
  | .statusTest w =>
    if (s.mem w.child).status = .stop then some (s.setPc t (.stopRead w))
    else some (s.setPc t (.cvLoad w))
  | .stopRead w => some (s.setPc t (.firstRelease w (s.mem w.child).exitcode))
  | .cvLoad w => some (s.setPc t (.cvHold w (s.mem w.child).arrayCv))
  | .cvHold w cv => if s.lock.pointer = some t then some (s.setPc t (.cvSleep w cv)) else none
  | .cvSleep w cv => some (((s.release t).sleep t (.cv cv)).setPc t (.cvAsleep w cv))
  | .cvAsleep w _ =>
    if s.lock.pointer = some t then none
    else if s.lock.held then some ((s.sleep t .lock).setPc t (.reacquire w))
    else some ((s.acquire t).setPc t (.wokenRead w))
  | .reacquire w =>
    if s.lock.held then some (s.sleep t .lock) else some ((s.acquire t).setPc t (.wokenRead w))
  | .wokenRead w => some (s.setPc t (.firstRelease w (s.mem w.child).exitcode))
  | .firstRelease w v => some ((s.release t).setPc t (.secondRelease w (some v)))
  | .secondRelease w v => some ((s.release t).setPc t (.waitDone w v))
  | .waitDone _ _ => some (s.setPc t .user)
  | .cpScan f i =>
    if maxpid ≤ i then some (s.setPc t (.cpChild .pid f (-1)))
    else if s.table i = none then some (s.setPc t (.cpChild .pid f i))
    else some (s.setPc t (.cpScan f (i + 1)))
  | .cpChild st f i => some (childStmt s t f i st)
  | .cpRelease f => some ((s.release t).setPc t (.tfStack f))
  | .fullCv f =>
    some (({ s with cvs := Function.update s.cvs (s.mem f.temp).arrayCv none }).setPc t
      (.fullFree f))
  | .fullFree f =>
    some ((({ s with alloc := Function.update s.alloc f.temp false }).freeThread f).setPc t .user)
  | _ => none

def cvCreate (s : State) (t : Nat) (f : Fork) : Option Nat → Option State
  | none =>
    some ((({ s with alloc := Function.update s.alloc f.temp false }).freeThread f).setPc t .user)
  | some cv =>
    if s.cvs cv = none then
      some ((({ s with cvs := Function.update s.cvs cv (some f.temp) }).setMem f.temp
        { s.mem f.temp with arrayCv := cv }).setPc t (.lockCheck (.child f)))
    else none

def forkRest (s : State) (t : Nat) (f : Fork) (run ok : Bool) : State :=
  if ok then
    if run then (((s.setPc f.thread .user).setStage f.proc (.alive f.thread)).setPc t .user)
    else s.setPc t (.tfRun f)
  else (s.freeThread f).setPc t .user

def threadStep (s : State) (t : Nat) (choice : Choice) : Option State :=
  if s.asleep t then none
  else
    match (s.threads t).pc, choice with
    | .user, c => userCall s t c
    | .cpCv f, .cvCreate cv => cvCreate s t f cv
    | .tfStack f, .kmalloc ok => some (forkRest s t f false ok)
    | .tfRun f, .kmalloc ok => some (forkRest s t f true ok)
    | pc, .run => runStep s t pc
    | _, _ => none

-- n has 20 elements: the store n[20] leaves the array, and anything may come of it.
def overruns (s : State) (t : Nat) : Bool :=
  match (s.threads t).pc with
  | .reapPid i => s.table i ≠ none && 20 ≤ (s.n t).length
  | _ => false

inductive Act where
  | thread (t : Nat) (choice : Choice)
  | scribble (c : Nat) (p : Process)
  | overrun (t : Nat) (s : State)

def step (s : State) : Act → Option State
  | .thread t choice => threadStep s t choice
  | .scribble c p => if s.alloc c then none else some (s.setMem c p)
  | .overrun t s' => if overruns s t then some s' else none

def bootProcess (cv : Nat) : Process := ⟨.running, 0, minpid, minpid - 1, 0, cv⟩

def boot (mem : Nat → Process) : State where
  lock := ⟨false, none⟩
  sleepers := []
  table := Function.update (fun _ => none) minpid (some 0)
  mem := Function.update mem 0 (bootProcess 0)
  alloc := Function.update (fun _ => false) 0 true
  cvs := Function.update (fun _ => none) 0 (some 0)
  threads := Function.update (fun _ => ⟨0, 0, 0, .unborn⟩) 0 ⟨minpid, 0, 0, .user⟩
  cs := fun _ => false
  life := Function.update (Function.update (fun _ => ⟨.unused, 1, -1, -1, .running, none⟩) 1
    ⟨.gone, 1, minpid - 1, -1, .running, none⟩) 0
    ⟨.alive 0, 1, minpid, minpid - 1, .running, none⟩
  procOf := fun _ => 0
  slot := Function.update (fun _ => none) minpid (some (0, .sound))
  next := 2
  n := fun _ => []

theorem boot_pc (mem : Nat → Process) (u : Nat) :
    ((boot mem).threads u).pc = .user ∨ ((boot mem).threads u).pc = .unborn := by
  rcases eq_or_ne u 0 with rfl | hne
  · exact .inl rfl
  · exact .inr (by simp [boot,Function.update_of_ne hne])

def runs (t n : Nat) : List Act := List.replicate n (.thread t .run)

def forkUntil (t thread temp steps : Nat) : List Act :=
  [.thread t (.fork thread (some temp)), .thread t (.cvCreate (some temp))] ++ runs t steps

def forkWhole (t thread temp scans : Nat) : List Act :=
  forkUntil t thread temp (scans + 12) ++ [.thread t (.kmalloc true), .thread t (.kmalloc true)]

end OS161.Proc
