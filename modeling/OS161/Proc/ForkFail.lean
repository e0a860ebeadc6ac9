import OS161.Proc.Model
import OS161.Thread.Queue
import OS161.Thread.Storage
import OS161.Vm.Copy

namespace OS161.Fork

open Function

open Thread (Queue Arr)
open Proc (Process minpid maxpid)

structure Curthread where
  self : Nat
  pid : Int
  cwd : Option Nat

structure Kernel where
  table : Int → Option Nat
  procs : Nat → Process
  lock : Proc.Lock
  heap : Nat → Bool
  refcount : Nat → Nat
  sleepers : Arr
  zombies : Arr
  runqueue : Queue
  numthreads : Nat
  sys : Sys

-- What kmalloc answers at each call of one fork: an address, or NULL.
structure Grants where
  childtf : Option Nat
  thread : Option Nat
  name : Option Nat
  temp : Option Nat
  cv : Option Nat
  stack : Option Nat
  sleepers : Bool
  zombies : Bool
  scheduler : Bool
  runnable : Bool

structure Newguy where
  self : Nat
  name : Nat
  arrayPtr : Nat
  pid : Int

namespace Kernel

def kmalloc (k : Kernel) (addr : Nat) : Kernel :=
  { k with heap := Function.update k.heap addr true }

def kfree (k : Kernel) (addr : Nat) : Kernel :=
  { k with heap := Function.update k.heap addr false }

def lockAcquire (k : Kernel) (cur : Curthread) : Kern Kernel := do
  assert (k.lock.pointer ≠ some cur.self) "!lock_do_i_hold(lock)"
  if k.lock.held then .error .asleep else pure { k with lock := ⟨true, some cur.self⟩ }

-- Nobody sleeps on process_lock here: it was free when this call acquired it.
def lockRelease (k : Kernel) : Kernel := { k with lock := ⟨false, none⟩ }

def vopIncref (k : Kernel) (v : Nat) : Kernel :=
  { k with refcount := Function.update k.refcount v (k.refcount v + 1) }

def vopDecref (k : Kernel) (v : Nat) : Kern Kernel := do
  assert (0 < k.refcount v) "vn->vn_refcount>0"
  -- With one reference left this is VOP_RECLAIM, which ends in VOP_KILL.
  pure { k with refcount := Function.update k.refcount v (k.refcount v - 1) }

end Kernel

def nextPidFrom (table : Int → Option Nat) : Nat → Int → Int
  | 0, _ => -1
  | fuel + 1, i =>
    if i < maxpid then if table i = none then i else nextPidFrom table fuel (i + 1) else -1

def nextPid (table : Int → Option Nat) : Int := nextPidFrom table 400 minpid

def childProcess (k : Kernel) (cur : Curthread) (g : Grants) (thread name : Nat) :
    Kern (Option Newguy × Kernel) :=
  match g.temp with
  | none => pure (none, (k.kfree name).kfree thread)
  | some temp =>
    let k := k.kmalloc temp
    match g.cv with
    | none => pure (none, ((k.kfree name).kfree thread).kfree temp)
    | some cv => do
      let k ← (k.kmalloc cv).lockAcquire cur
      let pid := nextPid k.table
      if pid = -1 then
        pure (none, (((k.kfree cv).kfree name).kfree thread).kfree temp)
      else
        pure (some ⟨thread, name, temp, pid⟩, ({ k with
          procs := Function.update k.procs temp ⟨.running, 0, pid, cur.pid, thread, cv⟩
          table := Function.update k.table pid (some temp) }).lockRelease)

def threadCreate (k : Kernel) (cur : Curthread) (g : Grants) : Kern (Option Newguy × Kernel) :=
  match g.thread with
  | none => pure (none, k)
  | some thread =>
    let k := k.kmalloc thread
    match g.name with
    | none => pure (none, k.kfree thread)
    | some name => childProcess (k.kmalloc name) cur g thread name

def makeReady (k : Kernel) (g : Grants) (newguy : Nat) : Kern (Bool × Kernel) := do
  match ← k.sleepers.preallocate g.sleepers (k.numthreads + 1) with
  | none => pure (false, k)
  | some sleepers =>
    let k := { k with sleepers := sleepers }
    match ← k.zombies.preallocate g.zombies (k.numthreads + 1) with
    | none => pure (false, k)
    | some zombies =>
      let k := { k with zombies := zombies }
      match ← k.runqueue.preallocate id g.scheduler (k.numthreads + 1) with
      | none => pure (false, k)
      | some runqueue =>
        let k := { k with runqueue := runqueue }
        match ← k.runqueue.addtail id g.runnable newguy with
        | none => pure (false, k)
        | some runqueue => pure (true, { k with runqueue := runqueue, numthreads := k.numthreads + 1 })

def inheritCwd (k : Kernel) (cur : Curthread) : Kernel :=
  match cur.cwd with
  | none => k
  | some v => k.vopIncref v

def dropCwd (k : Kernel) (cur : Curthread) : Kern Kernel :=
  match cur.cwd with
  | none => pure k
  | some v => k.vopDecref v

def threadFork (k : Kernel) (cur : Curthread) (g : Grants) : Kern (Except Errno Newguy × Kernel) := do
  match ← threadCreate k cur g with
  | (none, k) => pure (.error .enomem, k)
  | (some newguy, k) =>
    match g.stack with
    | none => pure (.error .enomem, (k.kfree newguy.name).kfree newguy.self)
    | some stack => do
      match ← makeReady (inheritCwd (k.kmalloc stack) cur) g newguy.self with
      | (true, k) => pure (.ok newguy, k)
      | (false, k) =>
        let k ← dropCwd k cur
        pure (.error .enomem, ((k.kfree stack).kfree newguy.name).kfree newguy.self)

def copySpace (junk : AddrSpace) (s : Sys) (old : AddrSpace) : Option Nat × Sys :=
  match asCopy junk s.vm old with
  | (none, vm) => (none, { s with vm := vm })
  | (some new, vm) => (some new, ⟨vm, Function.update s.live new (some .space)⟩)

def sysFork (k : Kernel) (cur : Curthread) (old junk : AddrSpace) (g : Grants) :
    Kern (Except Errno Int × Kernel) :=
  if maxpid ≤ cur.pid then pure (.error .eagain, k)
  else
    match g.childtf with
    | none => pure (.error .enomem, k)
    | some childtf =>
      let k := k.kmalloc childtf
      match copySpace junk k.sys old with
      | (none, sys) => pure (.error .enomem, ({ k with sys := sys }).kfree childtf)
      | (some _, sys) => do
        match ← threadFork { k with sys := { sys with vm := asActivate sys.vm } } cur g with
        | (.error _, k) => pure (.error .enomem, k.kfree childtf)
        | (.ok newthread, k) => pure (.ok newthread.pid, k)

def SpaceFrame (s : Sys) (i : Nat) : Prop :=
  (∃ as l1 l2, Owns s (.page as l1 l2) i) ∨
    ∃ a, (s.live a = some .space ∨ s.live a = some .table) ∧ Owns s (.kernel a) i

structure Unchanged (cur : Curthread) (k k' : Kernel) : Prop where
  table : k'.table = k.table
  lock : k'.lock = k.lock
  numthreads : k'.numthreads = k.numthreads
  runqueue : k'.runqueue.toList = k.runqueue.toList
  cwd : ∀ v, cur.cwd = some v → k'.refcount v = k.refcount v
  frames : ∀ i, SpaceFrame k'.sys i ↔ SpaceFrame k.sys i

def Grants.early (g : Grants) : Prop :=
  g.thread = none ∨ g.name = none ∨ g.temp = none ∨ g.cv = none

section
variable {k k' : Kernel} {cur : Curthread} {g : Grants}

theorem nextPidFrom_free {table : Int → Option Nat} {fuel : Nat} {i : Int}
    (h : nextPidFrom table fuel i ≠ -1) : table (nextPidFrom table fuel i) = none := by
  induction fuel generalizing i with
  | zero => exact absurd rfl h
  | succ fuel ih =>
    rw [nextPidFrom] at h ⊢
    split
    · rename_i hlt
      rw [if_pos hlt] at h
      split
      · assumption
      · rename_i hne
        rw [if_neg hne] at h
        exact ih h
    · rename_i hlt
      rw [if_neg hlt] at h
      exact absurd rfl h

theorem lockAcquire_ok (h : k.lockAcquire cur = .ok k') :
    k.lock.held = false ∧ k' = { k with lock := ⟨true, some cur.self⟩ } := by
  have h := (assert_bind_ok h).2
  split at h
  · cases h
  · rename_i hfree
    cases h
    exact ⟨by simpa using hfree,rfl⟩

inductive Created (cur : Curthread) (g : Grants) (k : Kernel) : Option Newguy → Kernel → Prop
  | early {heap : Nat → Bool} (h : g.early) : Created cur g k none { k with heap := heap }
  | full {heap : Nat → Bool} (h : ¬ g.early) (hfree : k.lock.held = false)
      (hpid : nextPid k.table = -1) :
      Created cur g k none { k with heap := heap, lock := ⟨true, some cur.self⟩ }
  | entered {heap : Nat → Bool} {procs : Nat → Process} {newguy : Newguy} (h : ¬ g.early)
      (hfree : k.lock.held = false) (hpid : k.table newguy.pid = none) :
      Created cur g k (some newguy) { k with
        heap := heap, procs := procs, lock := ⟨false, none⟩
        table := Function.update k.table newguy.pid (some newguy.arrayPtr) }

theorem childProcess_created {heap : Nat → Bool} {thread name : Nat} {r : Option Newguy}
    (hthread : g.thread ≠ none) (hname : g.name ≠ none)
    (h : childProcess { k with heap := heap } cur g thread name = .ok (r, k')) :
    Created cur g k r k' := by
  unfold childProcess at h
  cases htemp : g.temp with
  | none =>
    simp only [htemp] at h
    cases h
    exact .early (.inr (.inr (.inl htemp)))
  | some temp =>
    simp only [htemp] at h
    cases hcv : g.cv with
    | none =>
      simp only [hcv] at h
      cases h
      exact .early (.inr (.inr (.inr hcv)))
    | some cv =>
      simp only [hcv] at h
      have hlate : ¬ g.early := by simp [Grants.early,hthread,hname,htemp,hcv]
      obtain ⟨k₁,hacq,h⟩ := bind_ok h
      obtain ⟨hfree,rfl⟩ := lockAcquire_ok hacq
      split at h
      · rename_i hpid
        cases h
        exact .full hlate hfree hpid
      · rename_i hpid
        cases h
        exact @Created.entered cur g k _ _ ⟨thread,name,temp,nextPid k.table⟩ hlate hfree
          (nextPidFrom_free hpid)

theorem threadCreate_created {r : Option Newguy} (h : threadCreate k cur g = .ok (r, k')) :
    Created cur g k r k' := by
  unfold threadCreate at h
  cases hthread : g.thread with
  | none =>
    simp only [hthread] at h
    cases h
    exact .early (.inl hthread)
  | some thread =>
    simp only [hthread] at h
    cases hname : g.name with
    | none =>
      simp only [hname] at h
      cases h
      exact .early (.inr (.inl hname))
    | some name =>
      simp only [hname] at h
      exact childProcess_created (by simp [hthread]) (by simp [hname]) h

end

section
variable {k k' : Kernel} {cur : Curthread} {g : Grants}

theorem makeReady_keeps {newguy : Nat} {ok : Bool} (h : makeReady k g newguy = .ok (ok, k')) :
    k'.table = k.table ∧ k'.sys = k.sys := by
  obtain ⟨sleepers,-,h⟩ := bind_ok h
  cases sleepers with
  | none => cases h; exact ⟨rfl,rfl⟩
  | some sleepers =>
    obtain ⟨zombies,-,h⟩ := bind_ok h
    cases zombies with
    | none => cases h; exact ⟨rfl,rfl⟩
    | some zombies =>
      obtain ⟨runqueue,-,h⟩ := bind_ok h
      cases runqueue with
      | none => cases h; exact ⟨rfl,rfl⟩
      | some runqueue =>
        obtain ⟨added,-,h⟩ := bind_ok h
        cases added <;> cases h <;> exact ⟨rfl,rfl⟩

theorem inheritCwd_keeps : (inheritCwd k cur).table = k.table ∧ (inheritCwd k cur).sys = k.sys := by
  unfold inheritCwd
  split <;> exact ⟨rfl,rfl⟩

theorem dropCwd_keeps (h : dropCwd k cur = .ok k') : k'.table = k.table ∧ k'.sys = k.sys := by
  unfold dropCwd at h
  split at h
  · cases h
    exact ⟨rfl,rfl⟩
  · have h := (assert_bind_ok h).2
    cases h
    exact ⟨rfl,rfl⟩

inductive ForkFailed (cur : Curthread) (g : Grants) (k : Kernel) : Kernel → Prop
  | early {heap : Nat → Bool} (h : g.early) : ForkFailed cur g k { k with heap := heap }
  | locked {k' : Kernel} (h : ¬ g.early) (hfree : k.lock.held = false) (hheld : k'.lock.held = true)
      (hsys : k'.sys = k.sys) : ForkFailed cur g k k'
  | listed {k' : Kernel} {i : Int} (h : ¬ g.early) (hnone : k.table i = none)
      (hsome : k'.table i ≠ none) (hsys : k'.sys = k.sys) : ForkFailed cur g k k'

theorem threadFork_failed {e : Errno} (h : threadFork k cur g = .ok (.error e, k')) :
    ForkFailed cur g k k' := by
  obtain ⟨⟨r,k₁⟩,hcreate,h⟩ := bind_ok h
  cases threadCreate_created hcreate with
  | early hearly =>
    cases h
    exact .early hearly
  | full hlate hfree =>
    cases h
    exact .locked hlate hfree rfl rfl
  | @entered heap procs newguy hlate _ hpid =>
    have hlisted : ∀ {k₂ : Kernel}, k₂.table = update k.table newguy.pid (some newguy.arrayPtr) →
        k₂.sys = k.sys → ForkFailed cur g k k₂ := fun {k₂} htab hsys =>
      .listed hlate hpid (by rw [htab,update_self]; exact nofun) hsys
    dsimp only at h
    split at h
    · cases h
      exact hlisted rfl rfl
    · obtain ⟨⟨ok,k₂⟩,hready,h⟩ := bind_ok h
      obtain ⟨htab,hsys⟩ := makeReady_keeps hready
      cases ok with
      | true => cases h
      | false =>
        obtain ⟨k₃,hdrop,h⟩ := bind_ok h
        obtain ⟨htab₁,hsys₁⟩ := dropCwd_keeps hdrop
        obtain rfl := (Prod.mk.inj (Except.ok.inj h)).2
        exact hlisted (htab₁.trans (htab.trans inheritCwd_keeps.1))
          (hsys₁.trans (hsys.trans inheritCwd_keeps.2))

theorem ForkFailed.sys (h : ForkFailed cur g k k') : k'.sys = k.sys := by
  cases h with
  | early => rfl
  | locked _ _ _ hsys | listed _ _ _ hsys => exact hsys

theorem ForkFailed.unchanged_iff (h : ForkFailed cur g k k') : Unchanged cur k k' ↔ g.early := by
  cases h with
  | early hearly => exact ⟨fun _ => hearly,fun _ => ⟨rfl,rfl,rfl,rfl,fun _ _ => rfl,fun _ => Iff.rfl⟩⟩
  | locked hlate hfree hheld =>
    refine ⟨fun hu => ?_,fun hx => absurd hx hlate⟩
    rw [hu.lock,hfree] at hheld
    cases hheld
  | listed hlate hnone hsome =>
    refine ⟨fun hu => ?_,fun hx => absurd hx hlate⟩
    rw [hu.table] at hsome
    exact absurd hnone hsome

end

section
variable {s s' : Sys} {junk old : AddrSpace}

theorem spaceFrame_activate (s : Sys) (i : Nat) :
    SpaceFrame { s with vm := asActivate s.vm } i ↔ SpaceFrame s i := Iff.rfl

theorem copySpace_cases (hs : s.vm.coremap.Sane) :
    ((asCopy junk s.vm old).1 = none ∧ copySpace junk s old = (none, s)) ∨
      ∃ start s', start < s.vm.coremap.count ∧ (s.vm.coremap.entries start).allocated = 0 ∧
        (asCopy junk s.vm old).1 = some (s.vm.coremap.kvaddr start) ∧
        copySpace junk s old = (some (s.vm.coremap.kvaddr start), s') ∧
        s'.vm.coremap = s.vm.coremap.takeRun start 1 ∧
        s'.live (s.vm.coremap.kvaddr start) = some .space := by
  rcases asCreate_cases hs junk with hfull | ⟨start,sp,hlt,hfree,-,hgot⟩
  · left
    simp [copySpace,asCopy,hfull]
  · have hcopy : ∃ vm', asCopy junk s.vm old = (some (s.vm.coremap.kvaddr start), vm') ∧
        vm'.coremap = s.vm.coremap.takeRun start 1 := by
      rw [asCopy,hgot]
      exact ⟨_,rfl,rfl⟩
    obtain ⟨vm',hcopy,hmap⟩ := hcopy
    refine .inr ⟨start,⟨vm',update s.live (s.vm.coremap.kvaddr start) (some .space)⟩,hlt,
      hfree,by rw [hcopy],?_,hmap,by simp only [update_self]⟩
    simp only [copySpace,hcopy]

theorem copySpace_some {own : Nat → Option Owner} (hheld : Held s own) {start : Nat}
    (hlt : start < s.vm.coremap.count) (hfree : (s.vm.coremap.entries start).allocated = 0)
    (hmap : s'.vm.coremap = s.vm.coremap.takeRun start 1)
    (hlive : s'.live (s.vm.coremap.kvaddr start) = some .space) :
    SpaceFrame s' start ∧ ¬ SpaceFrame s start := by
  have hown : own start = none := hheld.ledger.own_none (by rw [hfree]; decide)
  constructor
  · refine .inr ⟨_,.inl hlive,by rw [hlive]; exact nofun,?_⟩
    have hsame : kpageIndex s'.vm.coremap (s.vm.coremap.kvaddr start) = start := by
      rw [hmap]
      exact Coremap.kpageIndex_kvaddr hheld.ledger.sane hlt
    rw [hsame,hmap,Coremap.takeRun_continuous]
    simp
  · rintro (⟨as,l1,l2,ho⟩ | ⟨a,-,ho⟩)
    · rw [hheld.owns_page] at ho
      exact nomatch hown.symm.trans ho
    · rw [hheld.owns_kernel] at ho
      exact nomatch hown.symm.trans ho

end

theorem failed_fork_changes_nothing_iff {k k' : Kernel} {cur : Curthread} {g : Grants}
    {e : Errno} :
    (threadFork k cur g = .ok (.error e, k') → (Unchanged cur k k' ↔ g.early)) ∧
    (∀ own old junk, Held k.sys own → sysFork k cur old junk g = .ok (.error e, k') →
      (Unchanged cur k k' ↔ maxpid ≤ cur.pid ∨ g.childtf = none ∨
        (asCopy junk k.sys.vm old).1 = none)) := by
  refine ⟨fun h => (threadFork_failed h).unchanged_iff,fun own old junk hheld h => ?_⟩
  have hsame : ∀ {heap : Nat → Bool}, Unchanged cur k { k with heap := heap } :=
    ⟨rfl,rfl,rfl,rfl,fun _ _ => rfl,fun _ => Iff.rfl⟩
  unfold sysFork at h
  by_cases hpid : maxpid ≤ cur.pid
  · rw [if_pos hpid] at h
    cases h
    exact ⟨fun _ => .inl hpid,fun _ => hsame⟩
  · rw [if_neg hpid] at h
    cases hchild : g.childtf with
    | none =>
      simp only [hchild] at h
      cases h
      exact ⟨fun _ => .inr (.inl rfl),fun _ => hsame⟩
    | some childtf =>
      simp only [hchild] at h
      rcases @copySpace_cases k.sys junk old hheld.ledger.sane with
        ⟨hnone,hcopy⟩ | ⟨start,sys,hlt,hfree,hsome,hcopy,hmap,hlive⟩
      · rw [show (k.kmalloc childtf).sys = k.sys from rfl,hcopy] at h
        cases h
        exact ⟨fun _ => .inr (.inr hnone),fun _ => hsame⟩
      · rw [show (k.kmalloc childtf).sys = k.sys from rfl,hcopy] at h
        obtain ⟨⟨r,k₁⟩,hfork,h⟩ := bind_ok h
        cases r with
        | ok newthread => cases h
        | error err =>
          obtain rfl := (Prod.mk.inj (Except.ok.inj h)).2
          have hsys : k₁.sys = { sys with vm := asActivate sys.vm } := (threadFork_failed hfork).sys
          obtain ⟨hafter,hbefore⟩ := copySpace_some hheld hlt hfree hmap hlive
          refine ⟨fun hu => ?_,fun hx => ?_⟩
          · refine absurd ((hu.frames start).mp ?_) hbefore
            rw [show (k₁.kfree childtf).sys = _ from hsys,spaceFrame_activate]
            exact hafter
          · rcases hx with hx | hx | hx
            · exact absurd hx hpid
            · cases hx
            · rw [hsome] at hx
              cases hx

def bootKernel : Kernel where
  table := Function.update (fun _ => none) minpid (some 0)
  procs := fun _ => Proc.bootProcess 0
  lock := ⟨false, none⟩
  heap := fun _ => false
  refcount := fun _ => 1
  sleepers := ⟨[], 0⟩
  zombies := ⟨[], 0⟩
  runqueue := Queue.create 32
  numthreads := 1
  sys := Sys.boot ⟨0x10000, 0x19000⟩ (fun _ => zeroEntry) tlbInvalid

def menu : Curthread := ⟨0, minpid, some 7⟩

def plenty : Grants := ⟨some 1, some 2, some 3, some 4, some 5, some 6, true, true, true, true⟩

theorem failed_fork_changes_nothing_without_cv :
    ∃ k, threadFork bootKernel menu { plenty with cv := none } = .ok (.error .enomem, k) ∧
      Unchanged menu bootKernel k := by
  obtain ⟨k,hfork⟩ : ∃ k, threadFork bootKernel menu { plenty with cv := none } =
      .ok (.error .enomem, k) := ⟨_,rfl⟩
  exact ⟨k,hfork,(failed_fork_changes_nothing_iff.1 hfork).mpr (.inr (.inr (.inr rfl)))⟩

theorem failed_fork_leaves_entry :
    ∃ k, threadFork bootKernel menu { plenty with stack := none } = .ok (.error .enomem, k) ∧
      bootKernel.table 102 = none ∧ k.table 102 = some 4 ∧ ¬ Unchanged menu bootKernel k := by
  refine ⟨_,rfl,rfl,by decide +kernel,fun hu => ?_⟩
  have htab := congrFun hu.table 102
  exact absurd htab (by decide +kernel)

end OS161.Fork
