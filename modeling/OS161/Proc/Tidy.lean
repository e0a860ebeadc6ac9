import OS161.Proc.ExitCode

namespace OS161.Proc

open Function

def Tidy (s : State) : Act → Prop
  | .thread t _ =>
    match (s.threads t).pc with
    | .reapTest i => ∀ c n hl, s.table i = some c → s.slot i = some (n, hl) →
        (s.mem c).ppid = (s.threads t).pid → (s.mem c).status = .stop → (s.life n).stage = .ended
    | .cpChild .table f _ => s.table (s.mem f.temp).pid = none
    | _ => True
  | .scribble _ _ => True
  | .overrun _ _ => False

def Wait.forget (w : Wait) : Wait := { w with parent := false }

def Ret.forget : Ret → Ret
  | .wait w => .wait w.forget
  | r => r

def Pc.forget : Pc → Pc
  | .lockCheck r => .lockCheck r.forget
  | .lockTry r => .lockTry r.forget
  | .ppidNe w => .ppidNe w.forget
  | .ppidEq w => .ppidEq w.forget
  | .statusTest w => .statusTest w.forget
  | .stopRead w => .stopRead w.forget
  | .cvLoad w => .cvLoad w.forget
  | .cvHold w cv => .cvHold w.forget cv
  | .cvSleep w cv => .cvSleep w.forget cv
  | .cvAsleep w cv => .cvAsleep w.forget cv
  | .reacquire w => .reacquire w.forget
  | .wokenRead w => .wokenRead w.forget
  | .firstRelease w v => .firstRelease w.forget v
  | .secondRelease w v => .secondRelease w.forget v
  | .waitDone w v => .waitDone w.forget v
  | pc => pc

def Thread.forget (th : Thread) : Thread := { th with pc := th.pc.forget }

def State.forget (s : State) : State := { s with threads := Thread.forget ∘ s.threads }

namespace Pc

theorem live_forget (pc : Pc) : pc.forget.live = pc.live := by
  cases pc <;> rfl

theorem exiting_forget (pc : Pc) : pc.forget.exiting = pc.exiting := by
  cases pc <;> rfl

theorem reaping_forget (pc : Pc) : pc.forget.reaping = pc.reaping := by
  cases pc <;> rfl

theorem forking_forget (pc : Pc) : pc.forget.forking = pc.forking := by
  cases pc with
  | lockCheck r | lockTry r => cases r <;> rfl
  | _ => rfl

theorem allows_forget (pc : Pc) (ph : Phase) : pc.forget.allows ph = pc.allows ph := by
  cases pc with
  | lockCheck r | lockTry r => cases r <;> rfl
  | _ => rfl

theorem waiting_forget (pc : Pc) : pc.forget.waiting = pc.waiting.map Wait.forget := by
  cases pc with
  | lockCheck r | lockTry r => cases r <;> rfl
  | _ => rfl

theorem forget_forget (pc : Pc) : pc.forget.forget = pc.forget := by
  cases pc with
  | lockCheck r | lockTry r => cases r <;> rfl
  | _ => rfl

end Pc

namespace State
variable (s : State) (t : Nat)

theorem forget_forget : s.forget.forget = s.forget := by
  have hcomp : Thread.forget ∘ Thread.forget = Thread.forget := by
    funext th
    simp [Thread.forget,Pc.forget_forget]
  simp only [forget,← Function.comp_assoc,hcomp]

theorem forget_threads (u : Nat) (th : Thread) :
    ({ s with threads := Function.update s.threads u th } : State).forget =
      { s.forget with threads := Function.update s.forget.threads u th.forget } := by
  simp only [forget,Function.comp_update]

theorem forget_setPc (pc : Pc) : (s.setPc t pc).forget = s.forget.setPc t pc.forget :=
  s.forget_threads t _

theorem forget_startFork (thread temp : Nat) :
    (startFork s t thread temp).forget = startFork s.forget t thread temp := by
  simp only [startFork,forget,Function.comp_update]
  rfl

theorem forget_freeThread (f : Fork) : (s.freeThread f).forget = s.forget.freeThread f :=
  congrArg (State.setStage · f.proc .lost) (s.forget_setPc f.thread .unborn)

theorem forget_reapStage (i : Int) (stage : Stage) :
    (reapStage s i stage).forget = reapStage s.forget i stage := by
  have hslot : s.forget.slot = s.slot := rfl
  unfold reapStage
  rw [hslot]
  cases s.slot i with
  | none => rfl
  | some x => rfl

end State

theorem Ret.forget_forget (r : Ret) : r.forget.forget = r.forget := by
  cases r <;> rfl

theorem afterAcquire_forget (r : Ret) : afterAcquire r.forget = (afterAcquire r).forget := by
  cases r <;> rfl

def Alike (x y : Option State) : Prop := x.map State.forget = y.map State.forget

section
variable {s₁ s₂ : State} {x y x' y' : Option State}

theorem Alike.ite {c : Prop} [Decidable c] (hx : Alike x x') (hy : Alike y y') :
    Alike (if c then x else y) (if c then x' else y') := by
  split
  · exact hx
  · exact hy

theorem Alike.some (h : s₁.forget = s₂.forget) : Alike (some s₁) (some s₂) :=
  congrArg Option.some h

theorem State.alike_setPc (h : s₁.forget = s₂.forget) (t : Nat) {pc₁ pc₂ : Pc}
    (hpc : pc₁.forget = pc₂.forget) : (s₁.setPc t pc₁).forget = (s₂.setPc t pc₂).forget := by
  rw [State.forget_setPc,State.forget_setPc,h,hpc]

theorem Alike.setPc (h : s₁.forget = s₂.forget) (t : Nat) {pc₁ pc₂ : Pc}
    (hpc : pc₁.forget = pc₂.forget) :
    Alike (Option.some (s₁.setPc t pc₁)) (Option.some (s₂.setPc t pc₂)) :=
  .some (State.alike_setPc h t hpc)

end

section Forget
variable (s : State) (t : Nat)

theorem State.once : s.forget = s.forget.forget := s.forget_forget.symm

theorem childStmt_forget (f : Fork) (i : Int) (st : ChildStmt) :
    Alike (some (childStmt s t f i st)) (some (childStmt s.forget t f i st)) := by
  have hthreads : ∀ th : Thread,
      ({ s with threads := update s.threads f.thread th } : State).forget =
        ({ s.forget with threads := update s.forget.threads f.thread th.forget }).forget := by
    intro th
    rw [s.forget_threads,State.forget_threads,State.forget_forget]
    simp only [Thread.forget,Pc.forget_forget]
  cases st with
  | test =>
    have hmem : s.forget.mem = s.mem := rfl
    simp only [childStmt,hmem]
    split
    · exact .setPc s.once t rfl
    · exact .setPc s.once t rfl
  | arrayPtr | threadPid => exact .setPc (hthreads _) t rfl
  | _ => exact .setPc (State.once _) t rfl

theorem freeThread_forget (f : Fork) :
    Alike (some ((s.freeThread f).setPc t .user)) (some ((s.forget.freeThread f).setPc t .user)) := by
  rw [← State.forget_freeThread]
  exact .setPc (State.once _) t rfl

theorem runStep_forget (pc : Pc) : Alike (runStep s t pc) (runStep s.forget t pc.forget) := by
  have htab : s.forget.table = s.table := rfl
  cases pc with
  | exitSignal cv => exact .ite (.setPc (State.once _) t rfl) rfl
  | lockCheck r => exact .ite rfl (.setPc s.once t (congrArg Pc.lockTry r.forget_forget.symm))
  | lockTry r =>
    refine .ite (.some (State.once _)) (.setPc (State.once _) t ?_)
    rw [afterAcquire_forget,Pc.forget_forget]
  | scan i | cpScan f i =>
    exact .ite (.setPc s.once t rfl) (.ite (.setPc s.once t rfl) (.setPc s.once t rfl))
  | reapTest i =>
    simp only [runStep,Pc.forget,htab]
    cases s.table i with
    | none => rfl
    | some c =>
      rw [← State.forget_reapStage]
      exact .ite (.setPc (State.once _) t rfl) (.setPc s.once t rfl)
  | reapPid i =>
    simp only [runStep,Pc.forget,htab]
    cases s.table i with
    | none => rfl
    | some c => exact .ite (.setPc (State.once _) t rfl) rfl
  | reapCv i =>
    simp only [runStep,Pc.forget,htab]
    cases s.table i with
    | none => rfl
    | some c => exact .setPc (State.once _) t rfl
  | reapFree i =>
    simp only [runStep,Pc.forget,htab]
    cases s.table i with
    | none => exact .setPc s.once t rfl
    | some c => exact .setPc (State.once _) t rfl
  | reapNull i =>
    simp only [runStep,Pc.forget]
    rw [← State.forget_reapStage]
    exact .setPc (State.once _) t rfl
  | getTest pid | ppidNe w | ppidEq w | statusTest w =>
    exact .ite (.setPc s.once t rfl) (.setPc s.once t rfl)
  | getRead pid =>
    simp only [runStep,Pc.forget,htab]
    cases s.table pid with
    | none | some c => exact .setPc s.once t rfl
  | cvHold w cv => exact .ite (.setPc s.once t rfl) rfl
  | cvAsleep w cv =>
    exact .ite rfl (.ite (.setPc (State.once _) t rfl) (.setPc (State.once _) t rfl))
  | reacquire w => exact .ite (.some (State.once _)) (.setPc (State.once _) t rfl)
  | cpChild st f i => exact childStmt_forget s t f i st
  | fullFree f =>
    exact freeThread_forget { s with alloc := update s.alloc f.temp false } t f
  | unborn | created | user | zombie | cpCv | tfStack | tfRun => rfl
  | _ => exact .setPc (State.once _) t rfl

theorem userCall_forget (choice : Choice) :
    Alike (userCall s t choice) (userCall s.forget t choice) := by
  cases choice with
  | exit code => exact .setPc (State.once _) t rfl
  | waitpid pid options statusNull => exact .ite (.some s.once) (.setPc s.once t rfl)
  | fork thread temp =>
    cases temp with
    | none => exact .some s.once
    | some temp =>
      have hpc : ((s.forget.threads thread).pc = .unborn ∨ (s.forget.threads thread).pc = .zombie) ↔
          ((s.threads thread).pc = .unborn ∨ (s.threads thread).pc = .zombie) := by
        show ((s.threads thread).pc.forget = _ ∨ (s.threads thread).pc.forget = _) ↔ _
        cases (s.threads thread).pc <;> simp [Pc.forget]
      simp only [userCall,hpc]
      refine .ite (.some ?_) rfl
      rw [← State.forget_startFork,State.forget_forget]
  | ret => exact .ite (.setPc (State.once _) t rfl) rfl
  | _ => rfl

theorem cvCreate_forget (f : Fork) (cv : Option Nat) :
    Alike (cvCreate s t f cv) (cvCreate s.forget t f cv) := by
  cases cv with
  | none => exact freeThread_forget { s with alloc := update s.alloc f.temp false } t f
  | some cv => exact .ite (.setPc (State.once _) t rfl) rfl

theorem forkRest_forget (f : Fork) (run ok : Bool) :
    Alike (some (forkRest s t f run ok)) (some (forkRest s.forget t f run ok)) := by
  have hstart : ((s.setPc f.thread .user).setStage f.proc (.alive f.thread)).forget =
      ((s.forget.setPc f.thread .user).setStage f.proc (.alive f.thread)).forget :=
    congrArg (State.setStage · f.proc (.alive f.thread)) (State.alike_setPc s.once f.thread rfl)
  cases ok with
  | false => exact freeThread_forget s t f
  | true =>
    cases run with
    | false => exact .setPc s.once t rfl
    | true => exact .setPc hstart t rfl

theorem step_forget (act : Act) : Alike (step s act) (step s.forget act) := by
  cases act with
  | thread t choice =>
    refine .ite rfl ?_
    have hrun := runStep_forget s t (s.threads t).pc
    rw [show (s.forget.threads t).pc = (s.threads t).pc.forget from rfl]
    generalize (s.threads t).pc = pc at hrun
    cases pc with
    | user => exact userCall_forget s t choice
    | cpCv f =>
      cases choice with
      | cvCreate cv => exact cvCreate_forget s t f cv
      | _ => rfl
    | tfStack f =>
      cases choice with
      | kmalloc ok => exact forkRest_forget s t f false ok
      | _ => rfl
    | tfRun f =>
      cases choice with
      | kmalloc ok => exact forkRest_forget s t f true ok
      | _ => rfl
    | _ =>
      cases choice with
      | run => exact hrun
      | _ => rfl
  | scribble c p => exact .ite rfl (.some (State.once _))
  | overrun t s' =>
    have hsame : overruns s.forget t = overruns s t := by
      unfold overruns
      rw [show (s.forget.threads t).pc = (s.threads t).pc.forget from rfl]
      cases (s.threads t).pc <;> rfl
    simp only [step,hsame]
    rfl

end Forget

section
variable {s s' : State}

theorem Tidy.orderly {act : Act} (h : Tidy s act) : Orderly s.forget act := by
  cases act with
  | scribble c p => trivial
  | overrun => exact h.elim
  | thread t choice =>
    simp only [Tidy] at h
    unfold Orderly
    dsimp only
    rw [show (s.forget.threads t).pc = (s.threads t).pc.forget from rfl]
    generalize (s.threads t).pc = pc at h
    cases pc with
    | stopRead w => exact fun hw => by cases hw
    | reapTest i => exact h
    | cpChild st f i => cases st <;> exact h
    | _ => trivial

theorem Needs.forget {t : Nat} {pc : Pc} (h : Needs s t pc) : Needs s.forget t pc.forget := by
  cases pc with
  | exitSignal cv => exact h
  | stopRead | cvHold | cvSleep | cvAsleep | reacquire | wokenRead | firstRelease | secondRelease
  | waitDone => exact nofun
  | _ => trivial

theorem Local.forget {t : Nat} (h : Local s t) : Local s.forget t := by
  have hlive : (s.forget.threads t).pc.live = (s.threads t).pc.live := Pc.live_forget _
  constructor
  case alive => rw [hlive]; exact h.alive
  case slot => rw [hlive]; exact h.slot
  case table => rw [hlive]; exact h.table
  case phase =>
    rw [hlive]
    intro hl
    exact (Pc.allows_forget _ _).trans (h.phase hl)
  case exit =>
    intro code ptr hx
    exact h.exit code ptr ((Pc.exiting_forget _).symm.trans hx)
  case fork =>
    intro f k hf
    have hm := h.fork f k ((Pc.forking_forget _).symm.trans hf)
    exact ⟨hm.stage,hm.parent,hm.phase,hm.old,congrArg Pc.forget hm.thread,hm.cell,hm.cv,hm.pid,
      hm.ppid,hm.status,hm.ptr,hm.tpid,hm.out,hm.listed⟩
  case wait =>
    intro w hw hp
    obtain ⟨w',-,rfl⟩ := Option.map_eq_some_iff.mp ((Pc.waiting_forget _).symm.trans hw)
    cases hp
  case needs => exact h.needs.forget
  case reap =>
    intro i hh hr
    exact h.reap i hh ((Pc.reaping_forget _).symm.trans hr)
  case makes =>
    intro n hn
    obtain ⟨f,k,hf,hfn⟩ := h.makes n hn
    exact ⟨f,k,(Pc.forking_forget _).trans hf,hfn⟩
  case reaps =>
    intro n hn
    obtain ⟨i,hh,hr,hs⟩ := h.reaps n hn
    exact ⟨i,hh,(Pc.reaping_forget _).trans hr,hs⟩

theorem Agree.forget (h : Agree s) : Agree s.forget where
  entry i n hl hi := by
    obtain ⟨c,hc⟩ := h.entry i n hl hi
    exact ⟨c,hc.table,hc.pid,hc.old,hc.cell,hc.cv,hc.ppid,hc.parent,hc.stop,hc.code,hc.present,
      hc.broken⟩
  vacant := h.vacant
  fresh := h.fresh
  cells := h.cells
  inj := h.inj
  parents := h.parents
  threads t := (h.threads t).forget

theorem Agree.tidy_step {act : Act} (h : Agree s.forget) (hok : Tidy s act)
    (hstep : OS161.Proc.step s act = some s') : Agree s'.forget := by
  have halike := step_forget s act
  rw [hstep] at halike
  obtain ⟨s'',hs,heq⟩ := Option.map_eq_some_iff.mp halike.symm
  rw [← heq]
  exact (h.step hok.orderly hs).forget

end

end OS161.Proc
