import OS161.Thread.Conserve

namespace OS161.Thread

inductive Cmd (P M : Type) where
  | goto (mem : M) (pc : P)
  | splx (newspl : Nat) (pc : P)
  | sleep (addr : Nat) (pc : P)
  | awake (pc : P)
  | wakeup (addr : Nat) (single : Bool) (mem : List Nat → M) (pc : P)

structure Prog (P M : Type) where
  user : P
  entry : Nat → M → P → Bool
  exec : Nat → Nat → M → P → Option (Cmd P M)
  irq : M → Option (Nat × M)

structure Conf (P M : Type) where
  sys : Sys
  -- savespl of the trap a preempted thread is in
  frame : Nat → Option Nat
  pc : Nat → P
  mem : M

inductive Act (P : Type) where
  | call (pc : P)
  | run
  | tick
  | irq
  | fork (newguy : Nat)
  | exit
  | stash
  | switch

namespace Conf
variable {P M : Type} [DecidableEq P]

def start (g : Prog P M) (me : Nat) (mem : M) : Conf P M :=
  ⟨(Sys.boot me).splx 0, fun _ => none, fun _ => g.user, mem⟩

def jump (c : Conf P M) (cur : Nat) (p : P) : Conf P M :=
  { c with pc := Function.update c.pc cur p }

-- In this machine kmalloc always has memory.
def wakeUp (c : Conf P M) (addr : Nat) (single : Bool) (mem : List Nat → M) :
    Kern (Conf P M) := do
  let s ← c.sys.wakeup true addr single
  pure { c with sys := s, mem := mem (c.sys.woken addr single) }

def perform (c : Conf P M) (cur : Nat) : Cmd P M → Kern (Conf P M)
  | .goto m p => pure ({ c with mem := m }.jump cur p)
  | .splx n p => pure ({ c with sys := c.sys.splx n }.jump cur p)
  | .sleep addr p => do
    let s ← c.sys.threadSleep cur addr
    pure ({ c with sys := s }.jump cur p)
  | .awake p =>
    pure ({ c with sys :=
      { c.sys with sleepaddr := Function.update c.sys.sleepaddr cur none } }.jump cur p)
  | .wakeup addr single m p => do
    let c ← c.wakeUp addr single m
    pure (c.jump cur p)

def irq (g : Prog P M) (c : Conf P M) : Option (Kern (Conf P M)) :=
  (g.irq c.mem).map fun (addr, m) => do
    let c' ← { c with sys := c.sys.splx splHigh }.wakeUp addr false fun _ => m
    pure { c' with sys := c'.sys.splx c.sys.curspl }

def tick (c : Conf P M) (cur : Nat) : Kern (Conf P M) := do
  let s ← (c.sys.splx splHigh).threadYield
  pure { c with sys := s, frame := Function.update c.frame cur (some c.sys.curspl) }

def runThread (g : Prog P M) (c : Conf P M) (cur : Nat) : Act P → Option (Kern (Conf P M))
  | .call p =>
    if c.pc cur = g.user ∧ g.entry cur c.mem p then some (pure (c.jump cur p)) else none
  | .run => (g.exec cur c.sys.curspl c.mem (c.pc cur)).map (c.perform cur)
  | .tick => if c.sys.curspl = 0 then some (c.tick cur) else none
  | .irq => if c.sys.curspl = 0 then c.irq g else none
  | .fork n =>
    if c.pc cur = g.user ∧ c.sys.life n = .unused then
      some do
        let (_, s) ← c.sys.threadFork .plenty n
        pure { c with sys := s }
    else none
  | .exit =>
    if c.pc cur = g.user then
      some do
        let s ← c.sys.threadExit cur
        pure { c with sys := s }
    else none
  | _ => none

def runIdle (g : Prog P M) (c : Conf P M) : Act P → Option (Kern (Conf P M))
  | .switch =>
    if c.sys.runqueue.isEmpty then none
    else some do
      let s ← c.sys.switchTo .plenty
      pure { c with sys := s }
  | .irq => c.irq g
  | _ => none

def act (g : Prog P M) (c : Conf P M) (a : Act P) : Option (Kern (Conf P M)) :=
  match c.sys.away, c.sys.curthread with
  | some (cur, nextstate), _ =>
    match a with
    | .stash => some do
      let s ← c.sys.stash .plenty cur nextstate
      pure { c with sys := s }
    | _ => none
  | none, some cur =>
    match c.frame cur with
    | some savespl =>
      match a with
      | .run => some (pure
        { c with sys := c.sys.splx savespl, frame := Function.update c.frame cur none })
      | _ => none
    | none => c.runThread g cur a
  | none, none => c.runIdle g a

def step (g : Prog P M) (c : Conf P M) (a : Act P) : Option (Conf P M) :=
  (c.act g a).bind Except.toOption

def asleep (c : Conf P M) (addr t : Nat) : Prop :=
  t ∈ c.sys.sleepers ∧ c.sys.sleepaddr t = some addr

def falling (c : Conf P M) (addr t : Nat) : Prop :=
  c.sys.away = some (t, .sleep) ∧ c.sys.sleepaddr t = some addr

end Conf

namespace Cmd
variable {P M : Type}

def pc : Cmd P M → P
  | .goto _ p | .splx _ p | .sleep _ p | .awake p | .wakeup _ _ _ p => p

def mem (m : M) (woken : List Nat) : Cmd P M → M
  | .goto m' _ => m'
  | .wakeup _ _ f _ => f woken
  | _ => m

def woken (s : Sys) : Cmd P M → List Nat
  | .wakeup addr single _ _ => s.woken addr single
  | _ => []

def Fits (level : P → Option Nat) (rest : P → Bool) (spl : Nat) : Cmd P M → Prop
  | .goto _ p | .awake p => level p = some spl
  | .splx n p => level p = some n
  | .sleep _ p => level p = some splHigh ∧ spl = splHigh ∧ rest p = true
  | .wakeup _ _ _ p => level p = some spl

end Cmd

structure Lawful {P M : Type} (g : Prog P M) (level : P → Option Nat) (rest : P → Bool) :
    Prop where
  user : level g.user = some 0
  entry : ∀ t m p, g.entry t m p = true → level p = some 0
  exec : ∀ t spl m p cmd, level p = some spl → g.exec t spl m p = some cmd →
    cmd.Fits level rest spl

structure Leveled {P M : Type} (g : Prog P M) (level : P → Option Nat) (rest : P → Bool)
    (c : Conf P M) : Prop where
  conserved : Conserved c.sys
  alone : c.sys.away ≠ none → c.sys.curthread = none
  high : c.sys.curthread = none → c.sys.curspl = splHigh
  started : ∀ t, c.sys.curthread = some t → c.sys.started t = true
  cur : ∀ t, c.sys.curthread = some t →
    (c.frame t = none ∧ level (c.pc t) = some c.sys.curspl) ∨
    (c.frame t = some 0 ∧ level (c.pc t) = some 0 ∧ c.sys.curspl = splHigh)
  others : ∀ t, c.sys.life t = .live → c.sys.curthread ≠ some t →
    (c.frame t = some 0 ∧ level (c.pc t) = some 0 ∧ c.sys.started t = true) ∨
    (c.frame t = none ∧ level (c.pc t) = some splHigh ∧ rest (c.pc t) = true ∧
      c.sys.started t = true) ∨
    (c.frame t = none ∧ c.pc t = g.user ∧ c.sys.started t = false)
  dead : ∀ t, c.sys.life t ≠ .live → c.frame t = none ∧ c.pc t = g.user

structure Performed {P M : Type} (c : Conf P M) (t : Nat) (cmd : Cmd P M) (c' : Conf P M) :
    Prop where
  pc : c'.pc = Function.update c.pc t cmd.pc
  mem : c'.mem = cmd.mem c.mem (cmd.woken c.sys)
  asleep : ∀ a u, c'.asleep a u ↔ c.asleep a u ∧ u ∉ cmd.woken c.sys
  falling : ∀ a u, c'.falling a u ↔ u = t ∧ cmd = .sleep a cmd.pc

inductive Effect {P M : Type} (g : Prog P M) (c c' : Conf P M) : Prop where
  | perform (t : Nat) (cmd : Cmd P M) (cur : c.sys.curthread = some t)
      (exec : g.exec t c.sys.curspl c.mem (c.pc t) = some cmd) (done : Performed c t cmd c')
  | call (t : Nat) (p : P) (cur : c.sys.curthread = some t) (user : c.pc t = g.user)
      (entry : g.entry t c.mem p = true) (done : c' = c.jump t p)
  | irq (addr : Nat) (m : M) (fires : g.irq c.mem = some (addr, m))
      (on : c.sys.curspl = 0 ∨ c.sys.curthread = none)
      (mem : c'.mem = m) (pc : c'.pc = c.pc)
      (asleep : ∀ a u, c'.asleep a u ↔ c.asleep a u ∧ a ≠ addr)
      (falling : ∀ a u, ¬ c'.falling a u)
  | passive (mem : c'.mem = c.mem) (pc : c'.pc = c.pc)
      (asleep : ∀ a u, c'.asleep a u ↔ c.asleep a u ∨ c.falling a u)
      (falling : ∀ a u, ¬ c'.falling a u)

end OS161.Thread
