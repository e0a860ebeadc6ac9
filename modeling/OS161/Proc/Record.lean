import OS161.Proc.Model

namespace OS161.Proc

namespace Pc

def live : Pc → Bool
  | .unborn | .created _ | .zombie => false
  | _ => true

def idle (t : Nat) : Pc → Bool
  | .unborn | .zombie => true
  | .created u => u = t
  | _ => false

def allows : Pc → Phase → Bool
  | .exitCode _ _, ph => ph = .stopping
  | .lockCheck .exit, ph | .lockTry .exit, ph | .exitCv, ph | .exitSignal _, ph => ph = .exited
  | .scan _, ph | .reapTest _, ph | .reapPid _, ph | .reapCv _, ph | .reapFree _, ph
  | .reapNull _, ph | .exitRelease, ph => ph ≠ .stopping
  | _, ph => ph = .running

def exiting : Pc → Option (Int × Nat)
  | .exitStatus code ptr | .exitCode code ptr => some (code, ptr)
  | _ => none

def forking : Pc → Option (Fork × Nat)
  | .cpCv f | .fullFree f => some (f, 0)
  | .lockCheck (.child f) | .lockTry (.child f) | .cpScan f _ | .cpChild .pid f _ => some (f, 1)
  | .cpChild .test f _ | .cpChild .ppid f _ | .fullCv f => some (f, 2)
  | .cpChild .status f _ => some (f, 3)
  | .cpChild .exitcode f _ | .cpChild .processPtr f _ | .cpChild .arrayPtr f _ => some (f, 4)
  | .cpChild .threadPid f _ => some (f, 5)
  | .cpChild .table f _ => some (f, 6)
  | .cpRelease f | .tfStack f | .tfRun f => some (f, 7)
  | _ => none

def waiting : Pc → Option Wait
  | .lockCheck (.wait w) | .lockTry (.wait w) | .ppidNe w | .ppidEq w | .statusTest w
  | .stopRead w | .cvLoad w | .cvHold w _ | .cvSleep w _ | .cvAsleep w _ | .reacquire w
  | .wokenRead w => some w
  | _ => none

def reaping : Pc → Option (Int × Health)
  | .reapPid i | .reapCv i => some (i, .sound)
  | .reapFree i => some (i, .cvGone)
  | .reapNull i => some (i, .freed)
  | _ => none

end Pc

def Stage.owner : Stage → Option Nat
  | .making t | .alive t | .reaping t => some t
  | _ => none

def Stage.settled : Stage → Bool
  | .alive _ | .ended | .lost => true
  | _ => false

def Stage.grown : Stage → Bool
  | .unused | .making _ => false
  | _ => true

structure Entry (s : State) (i : Int) (n : Nat) (h : Health) (c : Nat) : Prop where
  table : s.table i = some c
  pid : (s.life n).pid = i
  old : n < s.next
  cell : h ≠ .freed → s.alloc c = true ∧ s.procOf c = n
  cv : h = .sound → s.cvs (s.mem c).arrayCv = some c
  ppid : h ≠ .freed → (s.mem c).ppid = (s.life n).ppid
  parent : (s.life n).ppid = (s.life (s.life n).parent).pid
  stop : h ≠ .freed → (s.mem c).status = .stop → (s.life n).phase ≠ .running
  code : h ≠ .freed → (s.life n).phase = .exited → (s.life n).exitArg = some (s.mem c).exitcode
  present : (s.life n).stage ≠ .unused ∧ (s.life n).stage ≠ .gone
  broken : h ≠ .sound → ∃ u, (s.life n).stage = .reaping u

structure Making (s : State) (t : Nat) (f : Fork) (k : Nat) : Prop where
  stage : (s.life f.proc).stage = .making t
  parent : (s.life f.proc).parent = (s.threads t).proc
  phase : (s.life f.proc).phase = .running
  old : f.proc < s.next
  thread : (s.threads f.thread).pc = .created t
  cell : s.alloc f.temp = true ∧ s.procOf f.temp = f.proc
  cv : 1 ≤ k → s.cvs (s.mem f.temp).arrayCv = some f.temp
  pid : 2 ≤ k → (s.mem f.temp).pid = (s.life f.proc).pid
  ppid : 3 ≤ k → (s.mem f.temp).ppid = (s.life f.proc).ppid ∧
    (s.life f.proc).ppid = (s.threads t).pid
  status : 4 ≤ k → (s.mem f.temp).status = .running
  ptr : 5 ≤ k → (s.threads f.thread).arrayPtr = f.temp ∧ (s.threads f.thread).proc = f.proc
  tpid : 6 ≤ k → (s.threads f.thread).pid = (s.life f.proc).pid
  out : k ≤ 6 → ∀ i h, s.slot i ≠ some (f.proc, h)
  listed : 7 ≤ k → s.slot (s.life f.proc).pid = some (f.proc, .sound) ∧
    s.table (s.life f.proc).pid = some f.temp

structure Waits (s : State) (t : Nat) (w : Wait) : Prop where
  slot : s.slot (s.life w.proc).pid = some (w.proc, .sound)
  table : s.table (s.life w.proc).pid = some w.child
  parent : (s.life w.proc).parent = (s.threads t).proc
  settled : (s.life w.proc).stage.settled = true

def Exited (s : State) (n : Nat) (code : Option Int) : Prop :=
  (s.life n).phase = .exited ∧ ∃ x, code = some x ∧ (s.life n).exitArg = some x

def Needs (s : State) (t : Nat) : Pc → Prop
  | .stopRead w => w.parent = true → (s.life w.proc).phase ≠ .running
  | .cvHold w cv | .cvSleep w cv => w.parent = true → cv = (s.mem w.child).arrayCv
  | .cvAsleep w cv => w.parent = true → cv = (s.mem w.child).arrayCv ∧
      ((t, .cv cv) ∈ s.sleepers ∨ (s.life w.proc).phase = .exited)
  | .reacquire w | .wokenRead w => w.parent = true → (s.life w.proc).phase = .exited
  | .firstRelease w v => w.parent = true → Exited s w.proc (some v)
  | .secondRelease w v | .waitDone w v => w.parent = true → Exited s w.proc v
  | .exitSignal cv => cv = (s.mem (s.threads t).arrayPtr).arrayCv
  | _ => True

structure Local (s : State) (t : Nat) : Prop where
  alive : (s.threads t).pc.live = true → (s.life (s.threads t).proc).stage = .alive t
  slot : (s.threads t).pc.live = true →
    s.slot (s.threads t).pid = some ((s.threads t).proc, .sound)
  table : (s.threads t).pc.live = true → s.table (s.threads t).pid = some (s.threads t).arrayPtr
  phase : (s.threads t).pc.live = true →
    (s.threads t).pc.allows (s.life (s.threads t).proc).phase = true
  exit : ∀ code ptr, (s.threads t).pc.exiting = some (code, ptr) →
    ptr = (s.threads t).arrayPtr ∧ (s.life (s.threads t).proc).exitArg = some code
  fork : ∀ f k, (s.threads t).pc.forking = some (f, k) → Making s t f k
  wait : ∀ w, (s.threads t).pc.waiting = some w → w.parent = true → Waits s t w
  needs : Needs s t (s.threads t).pc
  reap : ∀ i h, (s.threads t).pc.reaping = some (i, h) →
    ∃ n, s.slot i = some (n, h) ∧ (s.life n).stage = .reaping t ∧
      (s.life n).ppid = (s.threads t).pid
  makes : ∀ n, (s.life n).stage = .making t →
    ∃ f k, (s.threads t).pc.forking = some (f, k) ∧ f.proc = n
  reaps : ∀ n, (s.life n).stage = .reaping t →
    ∃ i h, (s.threads t).pc.reaping = some (i, h) ∧ s.slot i = some (n, h)

structure Agree (s : State) : Prop where
  entry : ∀ i n h, s.slot i = some (n, h) → ∃ c, Entry s i n h c
  vacant : ∀ i, s.table i = none ↔ s.slot i = none
  fresh : ∀ n, s.next ≤ n → (s.life n).stage = .unused ∧ (s.life n).phase = .running
  cells : ∀ c, s.alloc c = true → s.procOf c < s.next
  inj : ∀ c d, s.alloc c = true → s.alloc d = true → s.procOf c = s.procOf d → c = d
  parents : ∀ n, n < s.next → (s.life n).parent < s.next ∧
    (s.life (s.life n).parent).stage.grown = true
  threads : ∀ t, Local s t

structure Touches (s s' : State) (t m : Nat) : Prop where
  self : s'.threads t = s.threads t ∨ (s.threads t).pc.live = true
  thread : ∀ u, u ≠ t → (s.threads u).pc.idle t = false → s'.threads u = s.threads u
  asleep : ∀ u cv c, u ≠ t → (u, .cv cv) ∈ s.sleepers → s.cvs cv = some c →
    (u, .cv cv) ∈ s'.sleepers ∨ (s'.life (s.procOf c)).phase = .exited
  life : ∀ n, n ≠ m → s'.life n = s.life n
  slot : ∀ i n h, n ≠ m → (s'.slot i = some (n, h) ↔ s.slot i = some (n, h))
  table : ∀ i n h, n ≠ m → s.slot i = some (n, h) → s'.table i = s.table i
  vacant : ∀ i, s'.table i = none ↔ s'.slot i = none
  next : s'.next = s.next ∧ m < s.next ∨ s'.next = s.next + 1 ∧ m = s.next
  cell : ∀ c, s.alloc c = true → s.procOf c ≠ m → s'.alloc c = true ∧ s'.mem c = s.mem c ∧
    (s.cvs (s.mem c).arrayCv = some c → s'.cvs (s.mem c).arrayCv = some c)
  procOf : ∀ c, s.alloc c = true → s'.procOf c = s.procOf c
  cells : ∀ c, s'.alloc c = true → s.alloc c = false → s'.procOf c = s.next ∧ m = s.next
  newest : ∀ c d, s'.alloc c = true → s'.alloc d = true → s.alloc c = false →
    s.alloc d = false → c = d
  owned : ∀ u, u ≠ t → (s.life m).stage.owner ≠ some u
  claimed : ∀ u, u ≠ t → (s'.life m).stage ≠ .making u ∧ (s'.life m).stage ≠ .reaping u
  phase : (s.life m).phase ≠ .running → (s'.life m).phase ≠ .running
  exited : (s.life m).phase = .exited →
    (s'.life m).phase = .exited ∧ (s'.life m).exitArg = (s.life m).exitArg
  pid : (s.life m).stage.grown = true → (s'.life m).pid = (s.life m).pid
  grown : (s.life m).stage.grown = true → (s'.life m).stage.grown = true
  parent : (s'.life m).parent < s.next ∧ (s.life (s'.life m).parent).stage.grown = true

def WaitKept (s s' : State) (m : Nat) (w : Wait) : Prop :=
  s'.slot (s'.life m).pid = some (m, .sound) ∧ s'.table (s'.life m).pid = some w.child ∧
    (s'.life m).parent = (s.life m).parent ∧ (s'.life m).stage.settled = true ∧
    (s'.mem w.child).arrayCv = (s.mem w.child).arrayCv

theorem Pc.no_role {pc : Pc} (hlive : pc.live = false) :
    pc.exiting = none ∧ pc.forking = none ∧ pc.waiting = none ∧ pc.reaping = none := by
  cases pc <;> first | exact ⟨rfl,rfl,rfl,rfl⟩ | cases hlive

theorem Pc.live_of_idle {t : Nat} {pc : Pc} (hidle : pc.idle t = true) : pc.live = false := by
  cases pc <;> first | rfl | cases hidle

theorem Needs.of_not_live {s : State} {t : Nat} {pc : Pc} (hlive : pc.live = false) :
    Needs s t pc := by
  cases pc <;> trivial

theorem Local.owns_nothing {s : State} {t : Nat} (hl : Local s t)
    (hlive : (s.threads t).pc.live = false) (n : Nat) :
    (s.life n).stage ≠ .making t ∧ (s.life n).stage ≠ .reaping t := by
  obtain ⟨-,hfork,-,hreap⟩ := Pc.no_role hlive
  constructor
  · intro hn
    obtain ⟨f,k,hf,-⟩ := hl.makes n hn
    rw [hfork] at hf
    cases hf
  · intro hn
    obtain ⟨i,hh,hr,-⟩ := hl.reaps n hn
    rw [hreap] at hr
    cases hr

theorem Local.of_not_live {s : State} {t : Nat} (hlive : (s.threads t).pc.live = false)
    (hmake : ∀ n, (s.life n).stage ≠ .making t) (hreap : ∀ n, (s.life n).stage ≠ .reaping t) :
    Local s t := by
  obtain ⟨hexit,hfork,hwait,hreap'⟩ := Pc.no_role hlive
  constructor
  case alive | slot | table | phase => intro hl; rw [hlive] at hl; cases hl
  case exit => intro code ptr heq; rw [hexit] at heq; cases heq
  case fork => intro f k heq; rw [hfork] at heq; cases heq
  case wait => intro w heq; rw [hwait] at heq; cases heq
  case reap => intro i h heq; rw [hreap'] at heq; cases heq
  case needs => exact Needs.of_not_live hlive
  case makes => exact fun n hn => absurd hn (hmake n)
  case reaps => exact fun n hn => absurd hn (hreap n)

section Touch
variable {s s' : State} {t m : Nat} (h : Agree s) (hT : Touches s s' t m)

theorem Agree.own_entry (h : Agree s) {u : Nat} (hu : (s.threads u).pc.live = true) :
    Entry s (s.threads u).pid (s.threads u).proc .sound (s.threads u).arrayPtr := by
  obtain ⟨c,hc⟩ := h.entry _ _ _ ((h.threads u).slot hu)
  have : c = (s.threads u).arrayPtr := by
    have := (h.threads u).table hu
    rw [hc.table] at this
    exact Option.some.inj this
  exact this ▸ hc

theorem Agree.waits_entry (h : Agree s) {u : Nat} {w : Wait} (hw : Waits s u w) :
    Entry s (s.life w.proc).pid w.proc .sound w.child := by
  obtain ⟨c,hc⟩ := h.entry _ _ _ hw.slot
  have : c = w.child := by
    have := hw.table
    rw [hc.table] at this
    exact Option.some.inj this
  exact this ▸ hc

theorem Agree.pid_inj (h : Agree s) {u v : Nat} (hu : (s.threads u).pc.live = true)
    (hv : (s.threads v).pc.live = true) (hpid : (s.threads u).pid = (s.threads v).pid) : u = v := by
  have hus := (h.threads u).slot hu
  rw [hpid,(h.threads v).slot hv] at hus
  have hproc : (s.threads v).proc = (s.threads u).proc := by simpa using hus
  have hst := (h.threads u).alive hu
  rw [← hproc,(h.threads v).alive hv] at hst
  simpa using hst.symm

theorem Agree.waits_ppid (h : Agree s) {u : Nat} {w : Wait} (hu : (s.threads u).pc.live = true)
    (hw : Waits s u w) : (s.life w.proc).ppid = (s.threads u).pid := by
  rw [(h.waits_entry hw).parent,hw.parent]
  exact (h.own_entry hu).pid

include hT

theorem Touches.next_le : s.next ≤ s'.next := by
  rcases hT.next with ⟨heq,-⟩ | ⟨heq,-⟩ <;> omega

theorem Touches.phase_kept {n : Nat} (hn : (s.life n).phase ≠ .running) :
    (s'.life n).phase ≠ .running := by
  by_cases hm : n = m
  · rw [hm] at hn ⊢
    exact hT.phase hn
  · rw [hT.life n hm]
    exact hn

theorem Touches.exited_kept {n : Nat} (hn : (s.life n).phase = .exited) :
    (s'.life n).phase = .exited ∧ (s'.life n).exitArg = (s.life n).exitArg := by
  by_cases hm : n = m
  · rw [hm] at hn ⊢
    exact hT.exited hn
  · rw [hT.life n hm]
    exact ⟨hn,rfl⟩

theorem Touches.exited_code {n : Nat} {v : Option Int} (hn : Exited s n v) : Exited s' n v := by
  obtain ⟨hph,x,hv,hx⟩ := hn
  obtain ⟨hph',harg⟩ := hT.exited_kept hph
  exact ⟨hph',x,hv,harg.trans hx⟩

theorem Touches.grown_kept {n : Nat} (hn : (s.life n).stage.grown = true) :
    (s'.life n).stage.grown = true ∧ (s'.life n).pid = (s.life n).pid := by
  by_cases hm : n = m
  · rw [hm] at hn ⊢
    exact ⟨hT.grown hn,hT.pid hn⟩
  · rw [hT.life n hm]
    exact ⟨hn,rfl⟩

theorem Touches.making {u : Nat} {f : Fork} {k : Nat} (hu : u ≠ t)
    (hthr : s'.threads u = s.threads u) (hm : Making s u f k) : Making s' u f k := by
  have hne : f.proc ≠ m := fun heq => by
    have := hT.owned u hu
    rw [← heq,hm.stage] at this
    exact this rfl
  have hlife := hT.life f.proc hne
  have hidle : s'.threads f.thread = s.threads f.thread := by
    by_cases hft : f.thread = t
    · rw [hft]
      refine hT.self.resolve_right fun hlive => ?_
      rw [← hft,hm.thread] at hlive
      cases hlive
    · refine hT.thread f.thread hft ?_
      rw [hm.thread]
      simp [Pc.idle,hu]
  obtain ⟨ha,hmem,hcv⟩ := hT.cell f.temp hm.cell.1 (by rw [hm.cell.2]; exact hne)
  constructor
  case stage => rw [hlife]; exact hm.stage
  case parent => rw [hlife,hthr]; exact hm.parent
  case phase => rw [hlife]; exact hm.phase
  case old => exact Nat.lt_of_lt_of_le hm.old hT.next_le
  case thread => rw [hidle]; exact hm.thread
  case cell => exact ⟨ha,by rw [hT.procOf f.temp hm.cell.1,hm.cell.2]⟩
  case cv => intro hk; rw [hmem]; exact hcv (hm.cv hk)
  case pid => intro hk; rw [hmem,hlife]; exact hm.pid hk
  case ppid => intro hk; rw [hmem,hlife,hthr]; exact hm.ppid hk
  case status => intro hk; rw [hmem]; exact hm.status hk
  case ptr => intro hk; rw [hidle]; exact hm.ptr hk
  case tpid => intro hk; rw [hidle,hlife]; exact hm.tpid hk
  case out => intro hk i hl; rw [Ne,hT.slot i f.proc hl hne]; exact hm.out hk i hl
  case listed =>
    intro hk
    obtain ⟨hs,ht⟩ := hm.listed hk
    rw [hlife,hT.slot _ _ _ hne,hT.table _ _ _ hne hs]
    exact ⟨hs,ht⟩

include h

theorem Touches.entry {i : Int} {n : Nat} {hl : Health} {c : Nat} (hne : n ≠ m)
    (hi : s.slot i = some (n, hl)) (he : Entry s i n hl c) : Entry s' i n hl c := by
  have hlife := hT.life n hne
  have hcell : hl ≠ .freed → s'.alloc c = true ∧ s'.mem c = s.mem c ∧
      (s.cvs (s.mem c).arrayCv = some c → s'.cvs (s.mem c).arrayCv = some c) := fun hf =>
    hT.cell c (he.cell hf).1 (by rw [(he.cell hf).2]; exact hne)
  constructor
  case table => rw [hT.table i n hl hne hi,he.table]
  case pid => rw [hlife,he.pid]
  case old => exact Nat.lt_of_lt_of_le he.old hT.next_le
  case cell =>
    intro hf
    obtain ⟨ha,hp⟩ := he.cell hf
    exact ⟨(hcell hf).1,by rw [hT.procOf c ha,hp]⟩
  case cv =>
    intro hs
    have hf : hl ≠ .freed := by rw [hs]; decide
    obtain ⟨-,hmem,hcv⟩ := hcell hf
    rw [hmem]
    exact hcv (he.cv hs)
  case ppid => intro hf; rw [(hcell hf).2.1,hlife]; exact he.ppid hf
  case parent => rw [hlife,he.parent,(hT.grown_kept (h.parents n he.old).2).2]
  case stop => intro hf; rw [(hcell hf).2.1,hlife]; exact he.stop hf
  case code => intro hf; rw [(hcell hf).2.1,hlife]; exact he.code hf
  case present => rw [hlife]; exact he.present
  case broken => rw [hlife]; exact he.broken

theorem Touches.waits {u : Nat} {w : Wait} (hthr : s'.threads u = s.threads u)
    (hkept : w.proc = m → WaitKept s s' m w) (hw : Waits s u w) :
    Waits s' u w ∧ (s'.mem w.child).arrayCv = (s.mem w.child).arrayCv := by
  by_cases hm : w.proc = m
  · obtain ⟨hs,ht,hp,hst,hcv⟩ := hkept hm
    refine ⟨⟨?_,?_,?_,?_⟩,hcv⟩
    · rw [hm]; exact hs
    · rw [hm]; exact ht
    · rw [hm,hp,hthr,← hm]; exact hw.parent
    · rw [hm]; exact hst
  · have hlife := hT.life w.proc hm
    have he := h.waits_entry hw
    obtain ⟨ha,hp⟩ := he.cell (by decide)
    refine ⟨⟨?_,?_,?_,?_⟩,?_⟩
    · rw [hlife,hT.slot _ _ _ hm]; exact hw.slot
    · rw [hlife,hT.table _ _ _ hm hw.slot]; exact hw.table
    · rw [hlife,hthr]; exact hw.parent
    · rw [hlife]; exact hw.settled
    · rw [(hT.cell w.child ha (by rw [hp]; exact hm)).2.1]

theorem Touches.needs {u : Nat} (hu : u ≠ t) (hthr : s'.threads u = s.threads u)
    (hkept : ∀ w, (s.threads u).pc.waiting = some w → w.parent = true → w.proc = m →
      WaitKept s s' m w) (hl : Local s u) (hlive : (s.threads u).pc.live = true) :
    Needs s' u (s.threads u).pc := by
  have hneeds := hl.needs
  have hwaits := hl.wait
  have hown := h.own_entry hlive
  have hproc : (s.threads u).proc ≠ m := fun heq => by
    have := hT.owned u hu
    rw [← heq,hl.alive hlive] at this
    exact this rfl
  generalize hpc : (s.threads u).pc = pc at hneeds hwaits hkept
  have hcv : ∀ w, pc.waiting = some w → w.parent = true →
      (s'.mem w.child).arrayCv = (s.mem w.child).arrayCv := fun w hw hp =>
    (hT.waits h hthr (hkept w hw hp) (hwaits w hw hp)).2
  cases pc with
  | stopRead w => exact fun hp => hT.phase_kept (hneeds hp)
  | cvHold w cv | cvSleep w cv => exact fun hp => (hneeds hp).trans (hcv w rfl hp).symm
  | cvAsleep w cv =>
    intro hp
    obtain ⟨heq,hor⟩ := hneeds hp
    refine ⟨heq.trans (hcv w rfl hp).symm,?_⟩
    rcases hor with hin | hex
    · have he := h.waits_entry (hwaits w rfl hp)
      have := hT.asleep u cv w.child hu hin (by rw [heq]; exact he.cv rfl)
      rw [(he.cell (by decide)).2] at this
      exact this
    · exact .inr (hT.exited_kept hex).1
  | reacquire w | wokenRead w => exact fun hp => (hT.exited_kept (hneeds hp)).1
  | firstRelease w v | secondRelease w v | waitDone w v =>
    exact fun hp => hT.exited_code (hneeds hp)
  | exitSignal cv =>
    obtain ⟨ha,hp⟩ := hown.cell (by decide)
    refine Eq.trans hneeds ?_
    rw [hthr,(hT.cell _ ha (by rw [hp]; exact hproc)).2.1]
  | _ => trivial

theorem Touches.local {u : Nat} (hu : u ≠ t) (hidle : (s.threads u).pc.idle t = false)
    (hkept : ∀ w, (s.threads u).pc.waiting = some w → w.parent = true → w.proc = m →
      WaitKept s s' m w) : Local s' u := by
  have hl := h.threads u
  have hthr := hT.thread u hu hidle
  have hmine : ∀ n, (s.life n).stage.owner = some u → n ≠ m := fun n hn heq => by
    rw [heq] at hn
    exact hT.owned u hu hn
  have hback : ∀ n, (s'.life n).stage = .making u ∨ (s'.life n).stage = .reaping u → n ≠ m :=
    fun n hn heq => by
      rw [heq] at hn
      exact hn.elim (hT.claimed u hu).1 (hT.claimed u hu).2
  by_cases hlive : (s.threads u).pc.live = true
  · have hproc := hmine _ (by rw [hl.alive hlive]; rfl)
    constructor <;> rw [hthr]
    case alive => intro _; rw [hT.life _ hproc]; exact hl.alive hlive
    case slot => intro _; rw [hT.slot _ _ _ hproc]; exact hl.slot hlive
    case table => intro _; rw [hT.table _ _ _ hproc (hl.slot hlive)]; exact hl.table hlive
    case phase => intro _; rw [hT.life _ hproc]; exact hl.phase hlive
    case exit => intro code ptr hx; rw [hT.life _ hproc]; exact hl.exit code ptr hx
    case fork => exact fun f k hf => hT.making hu hthr (hl.fork f k hf)
    case wait => exact fun w hw hp => (hT.waits h hthr (hkept w hw hp) (hl.wait w hw hp)).1
    case needs => exact hT.needs h hu hthr hkept hl hlive
    case reap =>
      intro i hh hr
      obtain ⟨n,hs,hst,hpp⟩ := hl.reap i hh hr
      have hn := hmine n (by rw [hst]; rfl)
      exact ⟨n,(hT.slot _ _ _ hn).mpr hs,by rw [hT.life n hn,hst],by rw [hT.life n hn,hpp]⟩
    case makes =>
      intro n hn
      rw [hT.life n (hback n (.inl hn))] at hn
      exact hl.makes n hn
    case reaps =>
      intro n hn
      have hnm := hback n (.inr hn)
      rw [hT.life n hnm] at hn
      obtain ⟨i,hh,hr,hs⟩ := hl.reaps n hn
      exact ⟨i,hh,hr,(hT.slot _ _ _ hnm).mpr hs⟩
  · rw [Bool.not_eq_true] at hlive
    refine Local.of_not_live (by rw [hthr]; exact hlive) (fun n hn => ?_) (fun n hn => ?_)
    · rw [hT.life n (hback n (.inl hn))] at hn
      exact (hl.owns_nothing hlive n).1 hn
    · rw [hT.life n (hback n (.inr hn))] at hn
      exact (hl.owns_nothing hlive n).2 hn

theorem Touches.dormant {u : Nat} (hu : u ≠ t) (hlive : (s.threads u).pc.live = false)
    (hlive' : (s'.threads u).pc.live = false) : Local s' u := by
  refine Local.of_not_live hlive' (fun n hn => ?_) (fun n hn => ?_)
  all_goals
    by_cases hm : n = m
    · rw [hm] at hn
      first | exact (hT.claimed u hu).1 hn | exact (hT.claimed u hu).2 hn
    · rw [hT.life n hm] at hn
      first
        | exact ((h.threads u).owns_nothing hlive n).1 hn
        | exact ((h.threads u).owns_nothing hlive n).2 hn

theorem Touches.self_local {pc : Pc} (hlive : (s.threads t).pc.live = true)
    (hne : (s.threads t).proc ≠ m) (hthr : s'.threads t = { s.threads t with pc := pc })
    (hphase : ∀ ph, (s.threads t).pc.allows ph = true → pc.allows ph = true)
    (hplain : pc.exiting = none ∧ pc.waiting = none ∧ Needs s' t pc)
    (hforks : ∀ f k, (s.threads t).pc.forking = some (f, k) → f.proc = m)
    (hreaps : ∀ i hl n, (s.threads t).pc.reaping = some (i, hl) → s.slot i = some (n, hl) → n = m)
    (hfork : ∀ f k, pc.forking = some (f, k) → Making s' t f k)
    (hmakes : (s'.life m).stage = .making t → ∃ f k, pc.forking = some (f, k) ∧ f.proc = m)
    (hreap : ∀ i hl, pc.reaping = some (i, hl) →
      s'.slot i = some (m, hl) ∧ (s'.life m).stage = .reaping t ∧
        (s'.life m).ppid = (s.threads t).pid)
    (hreaps' : (s'.life m).stage = .reaping t →
      ∃ i hl, pc.reaping = some (i, hl) ∧ s'.slot i = some (m, hl)) : Local s' t := by
  have hl := h.threads t
  obtain ⟨hexit,hwait,hneeds⟩ := hplain
  constructor <;> rw [hthr]
  case alive => intro _; rw [hT.life _ hne]; exact hl.alive hlive
  case slot => intro _; rw [hT.slot _ _ _ hne]; exact hl.slot hlive
  case table => intro _; rw [hT.table _ _ _ hne (hl.slot hlive)]; exact hl.table hlive
  case phase => intro _; rw [hT.life _ hne]; exact hphase _ (hl.phase hlive)
  case exit => intro code ptr hx; rw [show pc.exiting = some (code, ptr) from hx] at hexit; cases hexit
  case fork => exact hfork
  case wait => intro w hw; rw [show pc.waiting = some w from hw] at hwait; cases hwait
  case needs => exact hneeds
  case reap => exact fun i hh hr => ⟨m,hreap i hh hr⟩
  case makes =>
    intro n hn
    by_cases hm : n = m
    · rw [hm] at hn ⊢
      exact hmakes hn
    · rw [hT.life n hm] at hn
      obtain ⟨f,k,hf,hfn⟩ := hl.makes n hn
      exact absurd (hfn.symm.trans (hforks f k hf)) hm
  case reaps =>
    intro n hn
    by_cases hm : n = m
    · rw [hm] at hn ⊢
      exact hreaps' hn
    · rw [hT.life n hm] at hn
      obtain ⟨i,hh,hr,hs⟩ := hl.reaps n hn
      exact absurd (hreaps i hh n hr hs) hm

theorem Agree.touch (hentry : ∀ i hl, s'.slot i = some (m, hl) → ∃ c, Entry s' i m hl c)
    (hself : Local s' t)
    (hidle : ∀ u, u ≠ t → (s.threads u).pc.idle t = true →
      (s'.threads u).pc.live = false ∨ Local s' u)
    (hkept : ∀ u w, u ≠ t → (s.threads u).pc.live = true → Waits s u w → w.proc = m →
      WaitKept s s' m w) : Agree s' where
  entry i n hl hi := by
    by_cases hm : n = m
    · rw [hm] at hi ⊢
      exact hentry i hl hi
    · have hi' := (hT.slot i n hl hm).mp hi
      obtain ⟨c,hc⟩ := h.entry i n hl hi'
      exact ⟨c,hT.entry h hm hi' hc⟩
  vacant := hT.vacant
  fresh n hn := by
    have hnm : s.next ≤ n ∧ n ≠ m := by
      rcases hT.next with ⟨heq,hm⟩ | ⟨heq,hm⟩ <;> omega
    rw [hT.life n hnm.2]
    exact h.fresh n hnm.1
  cells c hc := by
    cases hold : s.alloc c with
    | true =>
      rw [hT.procOf c hold]
      exact Nat.lt_of_lt_of_le (h.cells c hold) hT.next_le
    | false =>
      obtain ⟨hnew,hm⟩ := hT.cells c hc hold
      rcases hT.next with ⟨-,hlt⟩ | ⟨heq,-⟩ <;> omega
  inj c d hc hd heq := by
    cases hc' : s.alloc c <;> cases hd' : s.alloc d
    · exact hT.newest c d hc hd hc' hd'
    · have := h.cells d hd'
      rw [hT.procOf d hd',(hT.cells c hc hc').1] at heq
      omega
    · have := h.cells c hc'
      rw [hT.procOf c hc',(hT.cells d hd hd').1] at heq
      omega
    · rw [hT.procOf c hc',hT.procOf d hd'] at heq
      exact h.inj c d hc' hd' heq
  parents n hn := by
    by_cases hm : n = m
    · rw [hm]
      exact ⟨Nat.lt_of_lt_of_le hT.parent.1 hT.next_le,(hT.grown_kept hT.parent.2).1⟩
    · have hlt : n < s.next := by
        rcases hT.next with ⟨heq,-⟩ | ⟨heq,hmn⟩ <;> omega
      obtain ⟨hp,hg⟩ := h.parents n hlt
      rw [hT.life n hm]
      exact ⟨Nat.lt_of_lt_of_le hp hT.next_le,(hT.grown_kept hg).1⟩
  threads u := by
    by_cases hu : u = t
    · rw [hu]
      exact hself
    · cases hid : (s.threads u).pc.idle t with
      | true => exact (hidle u hu hid).elim (hT.dormant h hu (Pc.live_of_idle hid)) id
      | false =>
        refine hT.local h hu hid fun w hw hp => hkept u w hu ?_ ((h.threads u).wait w hw hp)
        by_contra hlive
        rw [Bool.not_eq_true] at hlive
        rw [(Pc.no_role hlive).2.2.1] at hw
        cases hw

end Touch

end OS161.Proc
