import OS161.Proc.ReapScan

namespace OS161.Proc

open Function Relation

def Goes (s s' : State) : Prop := ∃ t choice, step s (.thread t choice) = some s'

structure Brood (s : State) (c : Nat) : Prop where
  user : (s.threads 0).pc = .user
  pid : (s.threads 0).pid = minpid
  ptr : (s.threads 0).arrayPtr = 0
  awake : s.sleepers = []
  lock : s.lock = ⟨false, none⟩
  taken : s.table minpid = some 0
  vacant : ∀ k : Nat, c < k → s.table (minpid + k) = none
  child : ∀ k : Nat, 0 < k → k ≤ c → s.table (minpid + k) = some k ∧
    (s.mem k).ppid = minpid ∧ (s.mem k).status = .stop
  fresh : ∀ u, c < u → (s.threads u).pc = .unborn ∧ s.alloc u = false ∧ s.cvs u = none

section
variable {s : State} {t c : Nat}

theorem Goes.run {pc : Pc} {s' : State} (hpc : (s.threads t).pc = pc) (hawake : s.sleepers = [])
    (hrun : runStep s t pc = some s') : Goes s s' :=
  ⟨t,.run,step_run hpc (by simp [State.asleep,hawake]) hrun⟩

theorem find_slot {f : Fork} {i : Int} (m : Nat) (hpc : (s.threads t).pc = .cpScan f i)
    (hawake : s.sleepers = []) (hm : i + m < maxpid)
    (htaken : ∀ k : Nat, k < m → s.table (i + k) ≠ none) (hvacant : s.table (i + m) = none) :
    ReflTransGen Goes s (s.setPc t (.cpChild .pid f (i + m))) := by
  induction m generalizing s i with
  | zero =>
    simp only [Nat.cast_zero,add_zero] at hm hvacant ⊢
    exact .single (.run hpc hawake (by simp [runStep,Int.not_le.mpr hm,hvacant]))
  | succ m ih =>
    have hfirst : s.table i ≠ none := by simpa using htaken 0 (Nat.succ_pos m)
    have hgo : Goes s (s.setPc t (.cpScan f (i + 1))) := .run hpc hawake (by
      simp [runStep,show ¬ maxpid ≤ i by omega,hfirst])
    have hrest := ih (s := s.setPc t (.cpScan f (i + 1))) (i := i + 1)
      (State.pc_setPc_self _ _ _) hawake (by omega)
      (fun k hk => by
        have := htaken (k + 1) (by omega)
        rwa [Nat.cast_add,Nat.cast_one,show i + (↑k + 1) = i + 1 + (k : Int) by omega] at this)
      (by rwa [Nat.cast_add,Nat.cast_one,show i + (↑m + 1) = i + 1 + (m : Int) by omega] at hvacant)
    rw [show i + 1 + (m : Int) = i + ↑(m + 1) by push_cast; omega] at hrest
    refine .head hgo ?_
    simpa [State.setPc] using hrest

structure Beside (s s' : State) (m : Nat) (pc : Pc) : Prop where
  pc : s'.threads 0 = { s.threads 0 with pc := pc }
  awake : s'.sleepers = []
  mem : ∀ k, k ≠ m → s'.mem k = s.mem k
  rest : ∀ u, u ≠ 0 → u ≠ m →
    s'.threads u = s.threads u ∧ s'.alloc u = s.alloc u ∧ s'.cvs u = s.cvs u

theorem Brood.forked (h : Brood s c) (hc : c < 21) : ∃ s', ReflTransGen Goes s s' ∧
    Beside s s' (c + 1) (.cpChild .pid ⟨c + 1, c + 1, s.next⟩ (minpid + (c + 1 : Nat))) ∧
    s'.table = s.table := by
  obtain ⟨hunborn,halloc,hcvs⟩ := h.fresh (c + 1) (Nat.lt_succ_self c)
  let f : Fork := ⟨c + 1,c + 1,s.next⟩
  let s₁ := startFork s 0 (c + 1) (c + 1)
  let s₂ := (({ s₁ with cvs := update s₁.cvs (c + 1) (some (c + 1)) }).setMem (c + 1)
    { s₁.mem (c + 1) with arrayCv := c + 1 }).setPc 0 (.lockCheck (.child f))
  let s₃ := s₂.setPc 0 (.lockTry (.child f))
  let s₄ := (s₃.acquire 0).setPc 0 (.cpScan f minpid)
  have h₁ : Goes s s₁ := ⟨0,.fork (c + 1) (some (c + 1)),by
    simp [step,threadStep,State.asleep,h.awake,h.user,userCall,hunborn,halloc,s₁]⟩
  have h₂ : Goes s₁ s₂ := ⟨0,.cvCreate (some (c + 1)),by
    simp [step,threadStep,State.asleep,h.awake,cvCreate,hcvs,s₁,s₂,startFork,f]⟩
  have h₃ : Goes s₂ s₃ := .run (State.pc_setPc_self _ _ _) h.awake (by
    simp [runStep,s₂,s₁,startFork,State.setPc,State.setMem,h.lock,s₃])
  have h₄ : Goes s₃ s₄ := .run (State.pc_setPc_self _ _ _) h.awake (by
    simp [runStep,s₃,s₂,s₁,startFork,State.setPc,State.setMem,h.lock,s₄,afterAcquire])
  have h₅ := find_slot (s := s₄) (c + 1) (State.pc_setPc_self _ _ _) h.awake
    (by simp [minpid,maxpid]; omega) (fun k hk => ?_) (h.vacant (c + 1) (Nat.lt_succ_self c))
  · refine ⟨_,.trans (.tail (.tail (.tail (.single h₁) h₂) h₃) h₄) h₅,⟨?_,h.awake,fun k hk => ?_,
      fun u h0 hu => ?_⟩,rfl⟩
    · simp [s₄,s₃,s₂,s₁,startFork,State.setPc,State.setMem,State.acquire]
      rfl
    · simp [s₄,s₃,s₂,s₁,startFork,State.setPc,State.setMem,State.acquire,update_of_ne hk]
    · simp [s₄,s₃,s₂,s₁,startFork,State.setPc,State.setMem,State.acquire,update_of_ne h0,
        update_of_ne hu]
  · rcases Nat.eq_zero_or_pos k with rfl | hpos
    · simpa using fun hx => by cases h.taken.symm.trans hx
    · exact fun hx => by cases (h.child k hpos (by omega)).1.symm.trans hx

def ChildStmt.next : ChildStmt → ChildStmt
  | .pid => .test
  | .test => .ppid
  | .ppid => .status
  | .status => .exitcode
  | .exitcode => .processPtr
  | .processPtr => .arrayPtr
  | .arrayPtr => .threadPid
  | _ => .table

structure Filling (s s' : State) (c : Nat) (f : Fork) (j : Int) (st : ChildStmt) : Prop
    extends Beside s s' (c + 1) (.cpChild st f j) where
  table : s'.table = s.table
  number : st ≠ .pid → (s'.mem (c + 1)).pid = j
  ppid : st ≠ .pid → st ≠ .test → st ≠ .ppid → (s'.mem (c + 1)).ppid = (s.threads 0).pid
  ptr : st = .threadPid ∨ st = .table → (s'.threads (c + 1)).arrayPtr = c + 1

theorem Filling.step {s' : State} {f : Fork} {j : Int} {st : ChildStmt} (h : Filling s s' c f j st)
    (hj : j ≠ -1) (hf : f.thread = c + 1 ∧ f.temp = c + 1) (hst : st ≠ .table) :
    ∃ s'', Goes s' s'' ∧ Filling s s'' c f j st.next := by
  refine ⟨childStmt s' 0 f j st,.run (by rw [h.pc]) h.awake rfl,?_⟩
  have hpc := h.pc
  have hne : c + 1 ≠ 0 := Nat.succ_ne_zero c
  cases st with
  | table => exact absurd rfl hst
  | test =>
    have hnum := h.number (by simp)
    simp only [childStmt,hf.2,hnum,if_neg hj]
    refine ⟨⟨by rw [State.threads_setPc_self,hpc]; rfl,h.awake,h.mem,fun u h0 hu => ?_⟩,h.table,
      fun _ => hnum,fun _ _ hx => absurd rfl hx,by simp [ChildStmt.next]⟩
    rw [State.threads_setPc_ne _ h0]
    exact h.rest u h0 hu
  | _ =>
    refine ⟨⟨?_,h.awake,fun k hk => ?_,fun u h0 hu => ?_⟩,h.table,fun _ => ?_,fun _ _ _ => ?_,
      fun hx => ?_⟩
    all_goals simp_all [childStmt,State.setPc,State.setMem,State.setLife,ChildStmt.next,h.number,
      h.ppid,h.ptr,h.mem,h.rest]

theorem Filling.filled {s₁ : State} {f : Fork} {j : Int} (h : Filling s s₁ c f j .pid) (hj : j ≠ -1)
    (hf : f.thread = c + 1 ∧ f.temp = c + 1) :
    ∃ s', ReflTransGen Goes s₁ s' ∧ Filling s s' c f j .table := by
  obtain ⟨s₂,g₂,h₂⟩ := h.step hj hf nofun
  obtain ⟨s₃,g₃,h₃⟩ := h₂.step hj hf nofun
  obtain ⟨s₄,g₄,h₄⟩ := h₃.step hj hf nofun
  obtain ⟨s₅,g₅,h₅⟩ := h₄.step hj hf nofun
  obtain ⟨s₆,g₆,h₆⟩ := h₅.step hj hf nofun
  obtain ⟨s₇,g₇,h₇⟩ := h₆.step hj hf nofun
  obtain ⟨s₈,g₈,h₈⟩ := h₇.step hj hf nofun
  obtain ⟨s₉,g₉,h₉⟩ := h₈.step hj hf nofun
  refine ⟨s₉,?_,h₉⟩
  exact .head g₂ (.head g₃ (.head g₄ (.head g₅ (.head g₆ (.head g₇ (.head g₈ (.single g₉)))))))

theorem Filling.born {s' : State} {f : Fork} {j : Int} (h : Filling s s' c f j .table)
    (hf : f.thread = c + 1 ∧ f.temp = c + 1) : ∃ s'', ReflTransGen Goes s' s'' ∧
      Beside s s'' (c + 1) .user ∧ s''.lock = ⟨false, none⟩ ∧
      s''.table = update s.table j (some (c + 1)) ∧
      (s''.mem (c + 1)).ppid = (s.threads 0).pid ∧ (s''.mem (c + 1)).status = .stop := by
  have hne : c + 1 ≠ 0 := Nat.succ_ne_zero c
  let s₁ := childStmt s' 0 f j .table
  let s₂ := (s₁.release 0).setPc 0 (.tfStack f)
  let s₃ := s₂.setPc 0 (.tfRun f)
  let s₄ := ((s₃.setPc f.thread .user).setStage f.proc (.alive f.thread)).setPc 0 .user
  let s₅ := (s₄.setLife (s₄.threads (c + 1)).proc
    { s₄.life (s₄.threads (c + 1)).proc with exitArg := some 7 }).setPc (c + 1)
    (.exitStatus 7 (c + 1))
  have hawake : s₂.sleepers = [] := by
    show s'.sleepers.filter _ = []
    rw [h.awake]
    rfl
  have g₁ : Goes s' s₁ := .run (by rw [h.pc]) h.awake rfl
  have g₂ : Goes s₁ s₂ := .run (State.pc_setPc_self _ _ _) h.awake rfl
  have g₃ : Goes s₂ s₃ := ⟨0,.kmalloc true,by
    simp only [Proc.step,threadStep,State.asleep,hawake]
    rw [State.pc_setPc_self]
    rfl⟩
  have g₄ : Goes s₃ s₄ := ⟨0,.kmalloc true,by
    simp only [Proc.step,threadStep,State.asleep,show s₃.sleepers = [] from hawake]
    rw [State.pc_setPc_self]
    rfl⟩
  have hchild : s₄.threads (c + 1) = { s'.threads (c + 1) with pc := .user } := by
    simp [s₄,s₃,s₂,s₁,childStmt,State.setPc,State.setStage,State.setLife,State.release,hf]
  have g₅ : Goes s₄ s₅ := ⟨c + 1,.exit 7,by
    simp only [Proc.step,threadStep,State.asleep,show s₄.sleepers = [] from hawake,hchild,userCall,
      h.ptr (.inr rfl)]
    simp [s₅,hchild]⟩
  have g₆ := Goes.run (s := s₅) (t := c + 1) (State.pc_setPc_self _ _ _) hawake rfl
  refine ⟨_,.head g₁ (.head g₂ (.head g₃ (.head g₄ (.head g₅ (.single g₆))))),
    ⟨?_,hawake,fun k hk => ?_,fun u h0 hu => ?_⟩,rfl,?_,?_,?_⟩
  all_goals simp [s₅,s₄,s₃,s₂,s₁,childStmt,State.setPc,State.setMem,State.setStage,State.setLife,
    State.release,hf,h.pc,h.table,h.number,h.ppid]
  · simpa [hk] using h.mem k hk
  · simpa [h0,hu] using h.rest u h0 hu

theorem Brood.next (h : Brood s c) (hc : c < 21) :
    ∃ s', ReflTransGen Goes s s' ∧ Brood s' (c + 1) := by
  have hj : minpid + ((c + 1 : Nat) : Int) ≠ -1 := by simp only [minpid]; omega
  obtain ⟨s₁,g₁,h₁,htab₁⟩ := h.forked hc
  have hfill : Filling s s₁ c ⟨c + 1,c + 1,s.next⟩ (minpid + (c + 1 : Nat)) .pid :=
    ⟨h₁,htab₁,fun hx => absurd rfl hx,fun hx => absurd rfl hx,fun hx => by
      rcases hx with hx | hx <;> cases hx⟩
  obtain ⟨s₂,g₂,h₂⟩ := hfill.filled hj ⟨rfl,rfl⟩
  obtain ⟨s₃,g₃,h₃,hlock,htab,hppid,hstop⟩ := h₂.born ⟨rfl,rfl⟩
  have hother : ∀ {i : Int}, i ≠ minpid + (c + 1 : Nat) → s₃.table i = s.table i := fun hi => by
    rw [htab,update_of_ne hi]
  refine ⟨s₃,(g₁.trans g₂).trans g₃,?_⟩
  constructor
  case user => rw [h₃.pc]
  case pid => rw [h₃.pc]; exact h.pid
  case ptr => rw [h₃.pc]; exact h.ptr
  case awake => exact h₃.awake
  case lock => exact hlock
  case taken => rw [hother (by omega),h.taken]
  case vacant =>
    intro k hk
    rw [hother (by omega),h.vacant k (by omega)]
  case child =>
    intro k hpos hk
    rcases eq_or_ne k (c + 1) with rfl | hne
    · rw [htab,update_self,hppid]
      exact ⟨rfl,h.pid,hstop⟩
    · rw [hother (by omega),h₃.mem k hne]
      exact h.child k hpos (by omega)
  case fresh =>
    intro u hu
    obtain ⟨hth,halloc,hcv⟩ := h₃.rest u (by omega) (by omega)
    rw [hth,halloc,hcv]
    exact h.fresh u (by omega)

theorem Brood.grown (h : Brood s 0) {c : Nat} (hc : c ≤ 21) :
    ∃ s', ReflTransGen Goes s s' ∧ Brood s' c := by
  induction c with
  | zero => exact ⟨s,.refl,h⟩
  | succ c ih =>
    obtain ⟨s₁,g₁,h₁⟩ := ih (by omega)
    obtain ⟨s₂,g₂,h₂⟩ := h₁.next hc
    exact ⟨s₂,g₁.trans g₂,h₂⟩

theorem Brood.stops (h : Brood s c) : ∃ s', ReflTransGen Goes s s' ∧
    Beside s s' 0 (.lockCheck .exit) ∧ s'.lock = ⟨false, none⟩ ∧ s'.table = s.table := by
  have hset : ∀ {s₁ : State} {pc : Pc} (p : Process) (n : Nat) (l : Life) (pc' : Pc),
      Beside s s₁ 0 pc → Beside s (((s₁.setMem 0 p).setLife n l).setPc 0 pc') 0 pc' := by
    intro s₁ pc p n l pc' h₁
    refine ⟨?_,h₁.awake,fun k hk => ?_,fun u h0 hu => ?_⟩
    · rw [State.threads_setPc_self]
      show { s₁.threads 0 with pc := pc' } = _
      rw [h₁.pc]
    · exact (update_of_ne hk _ _).trans (h₁.mem k hk)
    · rw [State.threads_setPc_ne _ h0]
      exact h₁.rest u h0 hu
  obtain ⟨s₁,g₁,h₁,hlock₁,htab₁⟩ : ∃ s₁, Goes s s₁ ∧ Beside s s₁ 0 (.exitStatus 0 0) ∧
      s₁.lock = s.lock ∧ s₁.table = s.table := by
    have hcall : step s (.thread 0 (.exit 0)) = some ((s.setLife (s.threads 0).proc
        { s.life (s.threads 0).proc with exitArg := some 0 }).setPc 0 (.exitStatus 0 0)) := by
      simp [step,threadStep,State.asleep,h.awake,h.user,userCall,h.ptr]
    refine ⟨_,⟨0,.exit 0,hcall⟩,⟨?_,h.awake,fun _ _ => rfl,fun u h0 _ => ?_⟩,rfl,rfl⟩
    · rw [State.threads_setPc_self]
      rfl
    · rw [State.threads_setPc_ne _ h0]
      exact ⟨rfl,rfl,rfl⟩
  have g₂ := Goes.run (s := s₁) (by rw [h₁.pc]) h₁.awake rfl
  have h₂ := hset { s₁.mem 0 with status := .stop } (s₁.threads 0).proc
    { s₁.life (s₁.threads 0).proc with phase := .stopping } (.exitCode 0 0) h₁
  exact ⟨_,.head g₁ (.head g₂ (.single (.run (by rw [h₂.pc]) h₂.awake rfl))),hset _ _ _ _ h₂,
    hlock₁.trans h.lock,htab₁⟩

theorem Brood.scans (h : Brood s c) : ∃ s', ReflTransGen Goes s s' ∧
    (s'.threads 0).pc = .scan minpid ∧ s'.sleepers = [] ∧ s'.n 0 = [] ∧
    ∀ k : Nat, 0 < k → k ≤ c → stoppedChild s' 0 (minpid + k) = true := by
  obtain ⟨s₁,g₁,⟨hth,hawake,hmem,-⟩,hlock,htab⟩ := h.stops
  let s₂ := s₁.setPc 0 (.lockTry .exit)
  let s₃ := (s₂.acquire 0).setPc 0 .exitCv
  have g₂ : Goes s₁ s₂ := .run (by rw [hth]) hawake (by simp [runStep,hlock,s₂])
  have g₃ : Goes s₂ s₃ := .run (State.pc_setPc_self _ _ _) hawake (by
    simp [runStep,show s₂.lock = ⟨false,none⟩ from hlock,s₃,afterAcquire])
  let s₄ := s₃.setPc 0 (.exitSignal (s₃.mem (s₃.threads 0).arrayPtr).arrayCv)
  have g₄ : Goes s₃ s₄ := .run (State.pc_setPc_self _ _ _) hawake rfl
  have hpid : (s₄.threads 0).pid = minpid := by
    simp [s₄,s₃,s₂,State.setPc,State.acquire,hth,h.pid]
  have g₅ := Goes.run (s := s₄) (t := 0) (State.pc_setPc_self _ _ _) hawake
    (if_pos ⟨hpid.ge,hpid.le.trans (by decide)⟩)
  refine ⟨_,g₁.trans (.head g₂ (.head g₃ (.head g₄ (.single g₅)))),State.pc_setPc_self _ _ _,?_,?_,
    fun k hpos hk => ?_⟩
  · show s₁.sleepers.eraseP _ = []
    rw [hawake]
    rfl
  · show update s₄.n 0 [] 0 = []
    rw [update_self]
  · obtain ⟨hk₁,hppid,hstop⟩ := h.child k hpos hk
    refine stoppedChild_iff.mpr ⟨k,by rw [← hk₁,← htab]; rfl,?_⟩
    rw [State.threads_setPc_self]
    show (s₁.mem k).ppid = (s₄.threads 0).pid ∧ (s₁.mem k).status = .stop
    rw [hmem k (by omega),hpid]
    exact ⟨hppid,hstop⟩

theorem brood_boot : Brood (boot fun _ => bootProcess 0) 0 := by
  refine ⟨rfl,rfl,rfl,rfl,rfl,rfl,fun k hk => ?_,fun k hpos hk => ?_,fun u hu => ?_⟩
  · have hne : minpid + (k : Int) ≠ minpid := by omega
    simp [boot,update_of_ne hne]
  · omega
  · have hne : u ≠ 0 := by omega
    simp [boot,update_of_ne hne]

end

end OS161.Proc
