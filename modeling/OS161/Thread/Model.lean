import OS161.Thread.Queue
import OS161.Thread.Storage

namespace OS161.Thread

def splHigh : Nat := 15

inductive NextState where
  | ready
  | sleep
  | zomb
  deriving DecidableEq, Repr

inductive Life where
  | unused
  | live
  | exited
  deriving DecidableEq, Repr

-- Whether kmalloc has memory for each of the three buffers, should it be asked.
structure Mem where
  sleepers : Bool
  zombies : Bool
  queue : Bool
  deriving DecidableEq, Repr

def Mem.plenty : Mem := ⟨true, true, true⟩

def Mem.starved : Mem := ⟨false, false, false⟩

-- assert(result==0)
def assertDone {α : Type} : Option α → Kern α
  | some a => .ok a
  | none => .error (.panic "result==0")

structure Sys where
  curspl : Nat
  curthread : Option Nat
  runqueue : Queue
  sleepers : List Nat
  sleepersMax : Nat
  zombies : List Nat
  zombiesMax : Nat
  numthreads : Nat
  sleepaddr : Nat → Option Nat
  started : Nat → Bool
  -- cur inside mi_switch, before it is on any list
  away : Option (Nat × NextState)
  life : Nat → Life
  entered : List Nat
  left : List Nat

namespace Sys

def boot (me : Nat) : Sys where
  curspl := splHigh
  curthread := some me
  runqueue := Queue.create 32
  sleepers := []
  sleepersMax := 0
  zombies := []
  zombiesMax := 0
  numthreads := 1
  sleepaddr := fun _ => none
  started := fun t => t == me
  away := none
  life := fun t => if t = me then .live else .unused
  entered := []
  left := []

def splx (s : Sys) (newspl : Nat) : Sys := { s with curspl := newspl }

def sleepersArray (s : Sys) : Arr := ⟨s.sleepers, s.sleepersMax⟩

def zombiesArray (s : Sys) : Arr := ⟨s.zombies, s.zombiesMax⟩

def setSleepers (s : Sys) (a : Arr) : Sys := { s with sleepers := a.guys, sleepersMax := a.max }

def setZombies (s : Sys) (a : Arr) : Sys := { s with zombies := a.guys, zombiesMax := a.max }

def makeRunnable (mem : Bool) (s : Sys) (t : Nat) : Kern (Option Sys) := do
  assert (0 < s.curspl) "curspl>0"
  let q ← s.runqueue.addtail id mem t
  pure (q.map fun q => { s with runqueue := q, entered := s.entered ++ [t] })

def schedulerPreallocate (mem : Bool) (s : Sys) (nthreads : Nat) : Kern (Option Sys) := do
  assert (0 < s.curspl) "curspl>0"
  let q ← s.runqueue.preallocate id mem nthreads
  pure (q.map fun q => { s with runqueue := q })

-- thread_fork from splhigh() on.
def threadFork (mem : Mem) (s : Sys) (newguy : Nat) : Kern (Option Errno × Sys) := do
  let spl := s.curspl
  let nthreads := s.numthreads + 1
  let s := s.splx splHigh
  match ← s.sleepersArray.preallocate mem.sleepers nthreads with
  | none => pure (some .enomem, s.splx spl)
  | some a =>
    let s := s.setSleepers a
    match ← s.zombiesArray.preallocate mem.zombies nthreads with
    | none => pure (some .enomem, s.splx spl)
    | some a =>
      let s := s.setZombies a
      match ← s.schedulerPreallocate mem.queue nthreads with
      | none => pure (some .enomem, s.splx spl)
      | some s =>
        match ← s.makeRunnable mem.queue newguy with
        | none => pure (some .enomem, s.splx spl)
        | some s =>
          let s := { s with
            numthreads := s.numthreads + 1
            sleepaddr := Function.update s.sleepaddr newguy none
            started := Function.update s.started newguy false
            life := Function.update s.life newguy .live }
          pure (none, s.splx spl)

def switchFrom (s : Sys) (nextstate : NextState) : Kern Sys := do
  assert (0 < s.curspl) "curspl>0"
  match s.curthread with
  | none => pure s
  | some cur => pure { s with curthread := none, away := some (cur, nextstate) }

def stash (mem : Mem) (s : Sys) (cur : Nat) : NextState → Kern Sys
  | .ready => do assertDone (← { s with away := none }.makeRunnable mem.queue cur)
  | .sleep => do
    let a ← assertDone (← s.sleepersArray.add mem.sleepers cur)
    pure ({ s with away := none }.setSleepers a)
  | .zomb => do
    let a ← assertDone (← s.zombiesArray.add mem.zombies cur)
    pure ({ s with away := none }.setZombies a)

def destroyAll (s : Sys) : List Nat → Kern Sys
  | [] => pure s
  | z :: zs => do
    assert (s.curthread != some z) "z!=curthread"
    destroyAll { s with life := Function.update s.life z .unused } zs

def exorcise (mem : Mem) (s : Sys) : Kern Sys := do
  assert (0 < s.curspl) "curspl>0"
  let s ← s.destroyAll s.zombies
  let a ← assertDone (← s.zombiesArray.setsize mem.zombies 0)
  pure (s.setZombies a)

-- A thread that has run before comes back inside mi_switch, a new one in mi_threadstart.
def switchTo (mem : Mem) (s : Sys) : Kern Sys := do
  assert (0 < s.curspl) "curspl>0"
  let (next, q) ← s.runqueue.remhead
  let s := { s with curthread := some next, runqueue := q, left := s.left ++ [next] }
  if s.started next then
    s.exorcise mem
  else
    pure { s with started := Function.update s.started next true, curspl := 0 }

def wakeupLoop (mem : Bool) (addr : Nat) (single : Bool) : Nat → Nat → Sys → Kern Sys
  | 0, _, s => pure s
  | fuel + 1, i, s =>
    match s.sleepers[i]? with
    | none => pure s
    | some t =>
      if s.sleepaddr t = some addr then do
        let s ← assertDone
          (← { s with sleepers := s.sleepers.eraseIdx i }.makeRunnable mem t)
        if single then pure s else wakeupLoop mem addr single fuel i s
      else wakeupLoop mem addr single fuel (i + 1) s

-- thread_wakeup, and wakeup_single_thread where single is set.
def wakeup (mem : Bool) (s : Sys) (addr : Nat) (single : Bool) : Kern Sys := do
  assert (0 < s.curspl) "curspl>0"
  wakeupLoop mem addr single s.sleepers.length 0 s

def threadWakeup (mem : Bool) (s : Sys) (addr : Nat) : Kern Sys := s.wakeup mem addr false

def wakeupSingleThread (mem : Bool) (s : Sys) (addr : Nat) : Kern Sys := s.wakeup mem addr true

def threadYield (s : Sys) : Kern Sys :=
  (s.splx splHigh).switchFrom .ready

def threadSleep (s : Sys) (cur addr : Nat) : Kern Sys :=
  { s with sleepaddr := Function.update s.sleepaddr cur (some addr) }.switchFrom .sleep

def threadExit (s : Sys) (cur : Nat) : Kern Sys := do
  let s := s.splx splHigh
  assert (0 < s.numthreads) "numthreads>0"
  { s with
    numthreads := s.numthreads - 1
    life := Function.update s.life cur .exited }.switchFrom .zomb

end Sys

inductive Op where
  | splx (newspl : Nat)
  | fork (newguy : Nat)
  | yield
  | sleep (addr : Nat)
  | awake
  | wakeup (addr : Nat)
  | wakeupSingle (addr : Nat)
  | exit
  | stash
  | switch
  deriving DecidableEq, Repr

namespace Sys

def run (mem : Mem) (s : Sys) (cur : Nat) : Op → Option (Kern Sys)
  | .splx n => some (pure (s.splx n))
  | .fork n => if s.life n = .unused then some (do pure (← s.threadFork mem n).2) else none
  | .yield => some s.threadYield
  | .sleep addr => some (s.threadSleep cur addr)
  | .awake => some (pure { s with sleepaddr := Function.update s.sleepaddr cur none })
  | .wakeup addr => some (s.threadWakeup mem.queue addr)
  | .wakeupSingle addr => some (s.wakeupSingleThread mem.queue addr)
  | .exit => some (s.threadExit cur)
  | _ => none

-- While the scheduler idles, interrupt handlers may wake threads up, and hardclock yields.
def idle (mem : Mem) (s : Sys) : Op → Option (Kern Sys)
  | .switch => if s.runqueue.isEmpty then none else some (s.switchTo mem)
  | .wakeup addr => some (s.threadWakeup mem.queue addr)
  | .wakeupSingle addr => some (s.wakeupSingleThread mem.queue addr)
  | .yield => some (do
      let s' ← s.threadYield
      pure (s'.splx s.curspl))
  | _ => none

def step (s : Sys) (l : Op × Mem) : Option Sys :=
  (match s.away, s.curthread with
    | some (cur, nextstate), _ =>
      if l.1 = Op.stash then some (s.stash l.2 cur nextstate) else none
    | none, some cur => s.run l.2 cur l.1
    | none, none => s.idle l.2 l.1).bind Except.toOption

def leaving (s : Sys) : List Nat :=
  match s.away with
  | some (_, .zomb) | none => []
  | some (t, _) => [t]

def dying (s : Sys) : List Nat :=
  match s.away with
  | some (t, .zomb) => [t]
  | _ => []

def places (s : Sys) : List Nat :=
  s.curthread.toList ++ s.leaving ++ s.runqueue.toList ++ s.sleepers

def dead (s : Sys) : List Nat := s.zombies ++ s.dying

end Sys

end OS161.Thread
