import OS161.Userprog.LoadElf
import OS161.Vm.Copy
import OS161.Vm.GiveBack
import OS161.Vm.Translation

namespace OS161.Execv

def splHigh : Nat := 15

-- Owed are the address spaces created by this call and not destroyed since.
structure Call where
  sys : Sys
  vmspace : Option Nat
  curspl : Nat
  owed : List Nat

structure Arg where
  buf : Option Nat
  length : Nat

-- What a store outside every object leaves of the call's state.
structure Wreck where
  sys : Sys
  vmspace : Option Nat
  curspl : Nat

-- What the calls out of sys_execv answer, and what happens to the VM meanwhile. With an argument
-- the code stores through length, which is not set, and past the one pointer of argv (argStores);
-- arg_pointer[argc] lies past arg_pointer (pointerStore).
structure Answers where
  progname : Option Nat
  argv : Option Nat
  args : List Arg
  argStores : Kern Wreck
  pointerStore : Kern Wreck
  setup : List VmOp
  vfsOpen : Except Errno Nat
  junk : AddrSpace
  junk' : AddrSpace
  file : List Byte
  mem : Mem
  copyinout : Nat → Nat → Option Errno
  loading : List VmOp

inductive Exit where
  | ret (e : Errno)
  | usermode (argc stackptr entrypoint : Nat)
  deriving DecidableEq, Repr

namespace Call

def meanwhile (ops : List VmOp) (c : Call) : Kern Call :=
  match Run.exec vmStep c.sys ops with
  | none => .error .hang
  | some sys => .ok { c with sys := sys }

def wrecked (store : Kern Wreck) (c : Call) : Kern Call :=
  store.map fun w => { c with sys := w.sys, vmspace := w.vmspace, curspl := w.curspl }

def destroyOld (c : Call) : Kern Call :=
  match c.vmspace with
  | none => .ok c
  | some as =>
    match vmStep c.sys (.asDestroy as) with
    | none => .error .hang
    | some sys => .ok { c with sys := sys, vmspace := none, owed := c.owed.filter (· ≠ as) }

def create (junk : AddrSpace) (c : Call) : Call :=
  match OS161.asCreate junk c.sys.vm with
  | (none, vm) => { c with sys := { c.sys with vm := vm }, vmspace := none }
  | (some as, vm) =>
    { c with
      sys := ⟨vm, Function.update c.sys.live as (some .space)⟩
      vmspace := some as
      owed := as :: c.owed }

def activate (c : Call) : Call := { c with sys := { c.sys with vm := asActivate c.sys.vm } }

def setSpace (as : Nat) (sp : AddrSpace) (c : Call) : Call :=
  { c with sys := { c.sys with vm := c.sys.vm.setSpace as sp } }

end Call

-- Strings from the last argument down, then argc + 1 pointers.
def argStack (args : List Arg) : Nat :=
  let strings := args.foldr
    (fun arg stackptr => u32 ((stackptr : Int) - (arg.length + (4 - arg.length % 4) : Nat))) userstack
  u32 ((strings : Int) - (4 * (args.length + 1) : Nat))

def enter (a : Answers) (v as : Nat) (c : Call) : Kern (Exit × Call) :=
  match c.sys.vm.spaces as with
  | none => .error .hang
  | some sp => do
    let (result, ld) ← Elf.loadElf ⟨some as, a.copyinout⟩ a.file v ⟨a.mem, sp, 0, false⟩
    let c ← (c.setSpace as ld.space).meanwhile a.loading
    match result with
    | some e => .ok (.ret e, c)
    | none =>
      let c ← c.meanwhile [.asDefineStack as]
      -- The store may hit the spl that splx is given.
      let c ← c.wrecked a.pointerStore
      .ok (.usermode a.args.length (argStack a.args) ld.entrypoint, c)

def replace (a : Answers) (v : Nat) (c : Call) : Kern (Exit × Call) := do
  let c ← c.destroyOld
  assert (c.vmspace = none) "curthread->t_vmspace == NULL"
  let c := c.create a.junk
  match c.vmspace with
  | none => .ok (.ret .enomem, c)
  | some _ =>
    let c := c.activate.create a.junk'
    match c.vmspace with
    | none => .ok (.ret .enomem, c)
    | some as => enter a v as c.activate

def openProgram (a : Answers) (c : Call) : Kern (Exit × Call) :=
  if a.args.any (·.buf.isNone) then .ok (.ret .enomem, c)
  else
    match a.vfsOpen with
    | .error e => .ok (.ret e, c)
    | .ok v => replace a v c

def sysExecv (a : Answers) (c : Call) : Kern (Exit × Call) := do
  let c ← ({ c with curspl := splHigh } : Call).meanwhile a.setup
  if a.progname = none then .ok (.ret .enomem, c)
  else if a.argv = none then .ok (.ret .enomem, c)
  else
    let c ← if a.args.isEmpty then .ok c else c.wrecked a.argStores
    openProgram a c

structure SameSpace (c c' : Call) : Prop where
  vmspace : c'.vmspace = c.vmspace
  alive : ∀ {as}, c.vmspace = some as → c'.sys.vm.spaces as ≠ none
  mapped : ∀ {as l1 l2 i}, c.vmspace = some as → Owns c.sys (.page as l1 l2) i →
    Owns c'.sys (.page as l1 l2) i

structure Resumable (c c' : Call) : Prop extends SameSpace c c' where
  curspl : c'.curspl = c.curspl

def Accounted (c : Call) : Prop := ∀ as ∈ c.owed, c.vmspace = some as

def Answers.straying (a : Answers) (argStores pointerStore : Kern Wreck) : Answers :=
  { a with argStores := argStores, pointerStore := pointerStore }

def Keeps (P : Call → Call → Prop) (a : Answers) (c : Call) : Prop :=
  ∀ stores store exit c', sysExecv (a.straying stores store) c = .ok (exit, c') →
    (∀ e, exit = .ret e → P c c') ∧ Accounted c'

def Stuck (a : Answers) (c : Call) : Prop :=
  ∀ stores store out, sysExecv (a.straying stores store) c ≠ .ok out

def Answers.turnedBack (a : Answers) : Prop :=
  a.progname = none ∨ a.argv = none ∨ a.args = [] ∧ ∃ e, a.vfsOpen = .error e

theorem meanwhile_ok {ops : List VmOp} {c c' : Call} (h : c.meanwhile ops = .ok c') :
    ∃ sys, Run.exec vmStep c.sys ops = some sys ∧ c' = { c with sys := sys } := by
  unfold Call.meanwhile at h
  split at h
  · cases h
  · cases h
    exact ⟨_,‹_›,rfl⟩

section
variable {s s' : Sys} {own : Nat → Option Owner} {as : Nat}

theorem alive_step (hh : Held s own) {op : VmOp} (hne : op ≠ .asDestroy as)
    (hstep : vmStep s op = some s') (ha : s.vm.spaces as ≠ none) : s'.vm.spaces as ≠ none := by
  have hedit : ∀ {a f}, s.editSpace a f = some s' → s'.vm.spaces as ≠ none := by
    intro a f hs
    obtain ⟨sp,-,rfl⟩ := Option.map_eq_some_iff.mp hs
    rcases eq_or_ne as a with rfl | hna
    · simp [Vm.setSpace]
    · simpa [Vm.setSpace,Function.update_of_ne hna] using ha
  cases op with
  | allocKpages npages | asActivate =>
    cases hstep
    exact ha
  | freeKpages a =>
    obtain ⟨-,h⟩ := Option.ite_none_right_eq_some.mp hstep
    cases h
    exact ha
  | asCreate junk =>
    simp only [vmStep] at hstep
    split at hstep <;> cases hstep
    · rename_i vm hc
      unfold asCreate at hc
      dsimp only at hc
      split at hc <;> cases hc
      exact ha
    · rename_i a vm hc
      rw [spaces_asCreate hc]
      rcases eq_or_ne as a with rfl | hna
      · simp
      · rwa [Function.update_of_ne hna]
  | asDestroy a =>
    obtain ⟨sp,-,rfl⟩ := Option.map_eq_some_iff.mp hstep
    have hna : as ≠ a := fun h => hne (h ▸ rfl)
    simpa [asDestroy,Function.update_of_ne hna,destroyTables_spaces] using ha
  | asDefineRegion | asDefineStack | sysSbrk => exact hedit hstep
  | vmFault a ft fa random =>
    cases a with
    | none => rwa [fault_none hstep]
    | some a =>
      obtain ⟨sp,e,vm',hfa,-,hsp,hins,rfl⟩ := fault_some hstep
      rcases faultPaddr_took hh.ledger.sane (hh.placed a) hsp (l1Index_lt hfa) with
        ⟨-,ret,hp,-⟩ | ⟨-,i,ret,vm₁,hp,htook⟩
      · rw [hp] at hins
        obtain ⟨tlb,rfl⟩ := installPage_vm hins
        exact ha
      · rw [hp] at hins
        obtain ⟨tlb,rfl⟩ := installPage_vm hins
        rcases eq_or_ne as a with rfl | hna
        · exact htook.grows.alive
        · exact (htook.grows.others hna).symm ▸ ha

theorem alive_run (hh : Held s own) {ops : List VmOp} (hd : ∀ op ∈ ops, op.disciplined)
    (hne : ∀ op ∈ ops, op ≠ .asDestroy as) (hrun : Run.exec vmStep s ops = some s')
    (ha : s.vm.spaces as ≠ none) : (∃ own', Held s' own') ∧ s'.vm.spaces as ≠ none := by
  refine Run.invariant (I := fun t => (∃ own', Held t own') ∧ t.vm.spaces as ≠ none) ?_
    ⟨⟨own,hh⟩,ha⟩ (Run.along_of_forall (P := fun op => op.disciplined ∧ op ≠ .asDestroy as)
      fun op hop => ⟨hd op hop,hne op hop⟩) hrun
  rintro t op t' ⟨⟨own₁,hh₁⟩,ha₁⟩ ⟨hop,hne₁⟩ hstep
  obtain ⟨own₂,he⟩ := hh₁.step hop hstep
  exact ⟨⟨own₂,he.held⟩,alive_step hh₁ hne₁ hstep ha₁⟩

theorem SameSpace.of_run {c : Call} {curspl : Nat} (hh : Held c.sys own) (has : c.vmspace = some as)
    (hlive : c.sys.vm.spaces as ≠ none) {ops : List VmOp} (hd : ∀ op ∈ ops, op.disciplined)
    (hne : ∀ op ∈ ops, op ≠ .asDestroy as) (hrun : Run.exec vmStep c.sys ops = some s') :
    SameSpace c { c with sys := s', curspl := curspl } where
  vmspace := rfl
  alive h := by
    obtain rfl := Option.some_inj.mp (has.symm.trans h)
    exact (alive_run hh hd hne hrun hlive).2
  mapped h ho := by
    obtain rfl := Option.some_inj.mp (has.symm.trans h)
    obtain ⟨own',hh',-,ho'⟩ := hh.page_run ((hh.owns_page _ _ _ _).mp ho) hd hne hrun
    exact (hh'.owns_page _ _ _ _).mpr ho'

end

section Replace
variable {a : Answers} {v : Nat} {c c' : Call} {exit : Exit}

theorem wrecked_owed {store : Kern Wreck} (h : c.wrecked store = .ok c') : c'.owed = c.owed := by
  unfold Call.wrecked at h
  cases store <;> cases h
  rfl

theorem enter_owed {as : Nat} (h : enter a v as c = .ok (exit, c')) :
    c'.owed = c.owed := by
  unfold enter at h
  split at h
  · cases h
  · obtain ⟨⟨result,ld⟩,-,h₁⟩ := bind_ok h
    obtain ⟨c₁,hc₁,h₂⟩ := bind_ok h₁
    obtain ⟨sys,-,rfl⟩ := meanwhile_ok hc₁
    cases result with
    | some e =>
      cases h₂
      rfl
    | none =>
      obtain ⟨c₂,hc₂,h₃⟩ := bind_ok h₂
      obtain ⟨sys',-,rfl⟩ := meanwhile_ok hc₂
      obtain ⟨c₃,hc₃,h₄⟩ := bind_ok h₃
      cases h₄
      exact wrecked_owed hc₃

theorem activate_owed (c : Call) : c.activate.owed = c.owed := rfl

theorem activate_coremap (c : Call) : c.activate.sys.vm.coremap = c.sys.vm.coremap := rfl

theorem create_cases (hs : c.sys.vm.coremap.Sane) (junk : AddrSpace) :
    (c.create junk).vmspace = none ∧ (c.create junk).owed = c.owed ∨
      ∃ i, i < c.sys.vm.coremap.count ∧ (c.sys.vm.coremap.entries i).allocated = 0 ∧
        (c.create junk).vmspace = some (c.sys.vm.coremap.kvaddr i) ∧
        (c.create junk).owed = c.sys.vm.coremap.kvaddr i :: c.owed ∧
        (c.create junk).sys.vm.coremap = c.sys.vm.coremap.takeRun i 1 := by
  unfold Call.create
  rcases asCreate_cases hs junk with h | ⟨i,sp,hi,hfree,-,h⟩
  · rw [h]
    exact .inl ⟨rfl,rfl⟩
  · rw [h]
    exact .inr ⟨i,hi,hfree,rfl,rfl,rfl⟩

theorem destroyOld_ok {as : Nat} (has : c.vmspace = some as) (h : c.destroyOld = .ok c') :
    ∃ sys, vmStep c.sys (.asDestroy as) = some sys ∧
      c' = { c with sys := sys, vmspace := none, owed := c.owed.filter (· ≠ as) } := by
  unfold Call.destroyOld at h
  rw [has] at h
  dsimp only at h
  split at h
  · cases h
  · cases h
    exact ⟨_,‹_›,rfl⟩

theorem replace_spoils {own : Nat → Option Owner} {as : Nat} (hh : Held c.sys own)
    (has : c.vmspace = some as) (h : replace a v c = .ok (exit, c')) :
    (∃ e, exit = .ret e) ∧ c'.vmspace = none ∨ ¬ Accounted c' := by
  obtain ⟨c₁,hc₁,h₁⟩ := bind_ok h
  obtain ⟨sys,hstep,rfl⟩ := destroyOld_ok has hc₁
  obtain ⟨-,h₂⟩ := assert_bind_ok h₁
  obtain ⟨own₁,he₁⟩ := hh.evolves_destroy hstep
  have hs := he₁.held.ledger.sane
  dsimp only at h₂
  generalize hd : ({ c with sys := sys, vmspace := none, owed := c.owed.filter (· ≠ as) } : Call) = d
    at h₂
  have hsd : d.sys.vm.coremap.Sane := by
    rw [← hd]
    exact hs
  rcases create_cases hsd a.junk with ⟨hnone,-⟩ | ⟨i,hi,-,hvs,howed,hmap⟩
  · rw [hnone] at h₂
    cases h₂
    exact .inl ⟨⟨_,rfl⟩,hnone⟩
  rw [hvs] at h₂
  have hmap' := (activate_coremap (d.create a.junk)).trans hmap
  have hsame := Coremap.sameFrames_takeRun d.sys.vm.coremap i 1
  have hse : (d.create a.junk).activate.sys.vm.coremap.Sane := by
    rw [hmap']
    exact hsame.sane hsd
  rcases create_cases hse a.junk' with ⟨hnone,-⟩ | ⟨j,hj,hfree,hvs',howed',-⟩
  · rw [hnone] at h₂
    cases h₂
    exact .inl ⟨⟨_,rfl⟩,hnone⟩
  rw [hvs'] at h₂
  have hko := enter_owed h₂
  rw [hmap'] at hj hfree howed'
  rw [hsame.count] at hj
  rw [hsame.kvaddr] at howed'
  have hij : i ≠ j := by
    rintro rfl
    rw [Coremap.takeRun_allocated,if_pos ⟨le_rfl,Nat.lt_succ_self i⟩] at hfree
    exact one_ne_zero hfree
  refine .inr fun hall => hij ?_
  rw [activate_owed,howed',activate_owed,howed] at hko
  have hfirst := hall (d.sys.vm.coremap.kvaddr i) (by simp [hko])
  have hsecond := hall (d.sys.vm.coremap.kvaddr j) (by simp [hko])
  exact kvaddr_inj hsd hi hj (Option.some_inj.mp (hfirst.symm.trans hsecond))

end Replace

def frameless : Sys :=
  { freshBoot with vm := freshBoot.vm.setCoremap { freshBoot.vm.coremap with numofpage := 0 } }

theorem frameless_create {c : Call} (hc : c.sys = frameless) (junk : AddrSpace) :
    (c.create junk).vmspace = none := by
  have hsane : c.sys.vm.coremap.Sane := by
    rw [hc]
    exact ⟨by decide,by decide,by decide,by decide⟩
  rcases create_cases hsane junk with h | ⟨i,hi,-⟩
  · exact h.1
  · rw [hc] at hi
    exact absurd hi (Nat.not_lt_zero i)

section Failure
variable {a : Answers} {c c' : Call} {exit : Exit} {sys : Sys}

theorem sysExecv_back (hrun : Run.exec vmStep c.sys a.setup = some sys) (h : a.turnedBack)
    (stores store : Kern Wreck) : ∃ e, sysExecv (a.straying stores store) c =
      .ok (.ret e, { c with sys := sys, curspl := splHigh }) := by
  unfold sysExecv Answers.straying
  simp only [Call.meanwhile,hrun,ok_bind]
  by_cases hprog : a.progname = none
  · exact ⟨_,if_pos hprog⟩
  by_cases hargv : a.argv = none
  · exact ⟨_,(if_neg hprog).trans (if_pos hargv)⟩
  obtain ⟨hargs,e,he⟩ := (h.resolve_left hprog).resolve_left hargv
  rw [if_neg hprog,if_neg hargv,hargs,he]
  exact ⟨e,rfl⟩

theorem sysExecv_cases {stores store : Kern Wreck}
    (h : sysExecv (a.straying stores store) c = .ok (exit, c')) :
    ∃ sys, Run.exec vmStep c.sys a.setup = some sys ∧ (a.turnedBack ∨
      (a.progname ≠ none ∧ a.argv ≠ none ∧ a.args ≠ []) ∨
      ∃ v, replace (a.straying stores store) v { c with sys := sys, curspl := splHigh } =
        .ok (exit, c')) := by
  obtain ⟨c₁,hc₁,h₁⟩ := bind_ok h
  obtain ⟨sys,hrun,rfl⟩ := meanwhile_ok hc₁
  refine ⟨sys,hrun,?_⟩
  by_cases hprog : a.progname = none
  · exact .inl (.inl hprog)
  by_cases hargv : a.argv = none
  · exact .inl (.inr (.inl hargv))
  by_cases hargs : a.args = []
  · have hempty : (a.straying stores store).args.isEmpty = true := List.isEmpty_iff.mpr hargs
    have hbufs : (a.straying stores store).args.any (·.buf.isNone) = false := by
      rw [show (a.straying stores store).args = [] from hargs]
      rfl
    simp only [show ¬ (a.straying stores store).progname = none from hprog,
      show ¬ (a.straying stores store).argv = none from hargv,if_false,hempty,if_true,ok_bind,
      openProgram,hbufs,Bool.false_eq_true] at h₁
    split at h₁
    · rename_i e he
      exact .inl (.inr (.inr ⟨hargs,e,he⟩))
    · exact .inr (.inr ⟨_,h₁⟩)
  · exact .inr (.inl ⟨hprog,hargv,hargs⟩)

-- The stores may leave no address space and no memory for one.
theorem sysExecv_strays (hrun : Run.exec vmStep c.sys a.setup = some sys)
    (hprog : a.progname ≠ none) (hargv : a.argv ≠ none) (hargs : a.args ≠ []) :
    ∃ stores e c', sysExecv (a.straying stores stores) c = .ok (.ret e, c') ∧
      c'.vmspace = none := by
  refine ⟨.ok ⟨frameless,none,0⟩,?_⟩
  have hempty : a.args.isEmpty = false := by simpa using hargs
  unfold sysExecv Answers.straying
  simp only [Call.meanwhile,hrun,ok_bind,if_neg hprog,if_neg hargv,hempty,Bool.false_eq_true,
    if_false,Call.wrecked,Except.map,openProgram]
  split
  · exact ⟨_,_,rfl,rfl⟩
  · split
    · exact ⟨_,_,rfl,rfl⟩
    · have hnone := @frameless_create ⟨frameless,none,0,c.owed⟩ rfl a.junk
      refine ⟨.enomem,_,?_,hnone⟩
      unfold replace
      simp only [Call.destroyOld,ok_bind,hnone]
      rfl

end Failure

theorem execv_failure_resumes_iff {a : Answers} {c : Call} {own : Nat → Option Owner} {as : Nat}
    (hh : Held c.sys own) (has : c.vmspace = some as) (hlive : c.sys.vm.spaces as ≠ none)
    (howed : c.owed = []) (hspl : c.curspl = 0) (hd : ∀ op ∈ a.setup, op.disciplined)
    (hne : ∀ op ∈ a.setup, op ≠ .asDestroy as) :
    (Keeps Resumable a c ↔ Stuck a c) ∧ (Keeps SameSpace a c ↔ a.turnedBack ∨ Stuck a c) := by
  have hspace : Keeps SameSpace a c → a.turnedBack ∨ Stuck a c := by
    intro hkeeps
    by_contra hno
    obtain ⟨hback,hstuck⟩ := not_or.mp hno
    unfold Stuck at hstuck
    push Not at hstuck
    obtain ⟨stores,store,⟨exit,c'⟩,h⟩ := hstuck
    obtain ⟨sys,hrun,hturned | ⟨hprog,hargv,hargs⟩ | ⟨v,hrep⟩⟩ := sysExecv_cases h
    · exact hback hturned
    · obtain ⟨stray,e,c₁,hc₁,hnone⟩ := sysExecv_strays hrun hprog hargv hargs
      have hsame := ((hkeeps _ _ _ _ hc₁).1 e rfl).vmspace
      exact nomatch (hnone.symm.trans hsame).trans has
    · obtain ⟨⟨own₁,hh₁⟩,-⟩ := alive_run hh hd hne hrun hlive
      obtain ⟨hres,hacc⟩ := hkeeps _ _ _ _ h
      rcases replace_spoils (c := { c with sys := sys, curspl := splHigh }) hh₁ has hrep with
        ⟨⟨e,he⟩,hnone⟩ | hleft
      · exact nomatch (hnone.symm.trans (hres e he).vmspace).trans has
      · exact hleft hacc
  refine ⟨⟨fun hkeeps => ?_,fun hstuck _ _ _ _ h => absurd h (hstuck _ _ _)⟩,hspace,?_⟩
  · intro stores store out h
    have hsame : Keeps SameSpace a c := fun _ _ _ _ h =>
      ⟨fun e he => ((hkeeps _ _ _ _ h).1 e he).toSameSpace,(hkeeps _ _ _ _ h).2⟩
    rcases hspace hsame with hback | hstuck
    · obtain ⟨sys,hrun,-⟩ := sysExecv_cases h
      obtain ⟨e,he⟩ := sysExecv_back hrun hback stores store
      have hhigh : splHigh = c.curspl := ((hkeeps _ _ _ _ he).1 e rfl).curspl
      exact absurd (hhigh.trans hspl) (by decide)
    · exact hstuck _ _ _ h
  · rintro (hback | hstuck) stores store exit c' h
    · obtain ⟨sys,hrun,-⟩ := sysExecv_cases h
      obtain ⟨e,he⟩ := sysExecv_back hrun hback stores store
      cases he.symm.trans h
      refine ⟨fun _ _ => .of_run hh has hlive hd hne hrun,fun x hx => ?_⟩
      rw [howed] at hx
      cases hx
    · exact absurd h (hstuck _ _ _)

def program : List VmOp :=
  [.asCreate zeroSpace, .asDefineStack 0x80011000, .vmFault (some 0x80011000) .write 0x7ffff000 0]

def caller (s : Sys) : Call := ⟨s, some 0x80011000, 0, []⟩

def answers (vfsOpen : Except Errno Nat) (file : List Byte) : Answers :=
  ⟨some 1, some 2, [], .error .hang, .error .hang, [], vfsOpen, zeroSpace, zeroSpace, file, zeros,
    Elf.copyout, []⟩

theorem program_held {s : Sys} (hs : Run.exec vmStep freshBoot program = some s) :
    ∃ own, Held s own := by
  have hboot : Held freshBoot fun _ => none :=
    held_boot ⟨by decide,by decide,by decide,by decide⟩ _ _
  refine hboot.run (fun op hop => ?_) hs
  simp only [program,List.mem_cons,List.not_mem_nil,or_false] at hop
  rcases hop with rfl | rfl | rfl
  · exact fun _ => rfl
  · trivial
  · trivial

theorem execv_missing_file_resumes :
    ∃ s, Run.exec vmStep freshBoot program = some s ∧
      Keeps SameSpace (answers (.error .enoent) []) (caller s) ∧
      ¬ Keeps Resumable (answers (.error .enoent) []) (caller s) := by
  have hview : (Run.exec vmStep freshBoot program).map
      (fun s => (s.vm.spaces 0x80011000).isSome) = some true := by decide +kernel
  obtain ⟨s,hs,halive⟩ := Option.map_eq_some_iff.mp hview
  obtain ⟨own,hh⟩ := program_held hs
  have hlive : s.vm.spaces 0x80011000 ≠ none := Option.isSome_iff_ne_none.mp halive
  have hiff := @execv_failure_resumes_iff (answers (.error .enoent) []) (caller s) own _ hh rfl hlive
    rfl rfl (fun _ hop => absurd hop List.not_mem_nil) (fun _ hop => absurd hop List.not_mem_nil)
  refine ⟨s,hs,hiff.2.mpr (.inl (.inr (.inr ⟨rfl,_,rfl⟩))),fun hkeeps => ?_⟩
  exact hiff.1.mp hkeeps (.error .hang) (.error .hang) _ rfl

theorem execv_not_elf_loses_caller :
    ∃ s c', Run.exec vmStep freshBoot program = some s ∧ (∃ own, Held s own) ∧
      sysExecv (answers (.ok 7) []) (caller s) = .ok (.ret .enoexec, c') ∧
      ¬ SameSpace (caller s) c' ∧ ¬ Accounted c' ∧
      sysExecv (answers (.error .enoent) []) (caller s) =
        .ok (.ret .enoent, { caller s with curspl := splHigh }) := by
  have hview : ((Run.exec vmStep freshBoot program).bind fun s =>
      (sysExecv (answers (.ok 7) []) (caller s)).toOption.map fun p =>
        (p.1, p.2.vmspace, p.2.owed)) =
      some (.ret .enoexec, some 0x80012000, [0x80012000,0x80011000]) := by decide +kernel
  obtain ⟨s,hs,hcall⟩ := Option.bind_eq_some_iff.mp hview
  obtain ⟨⟨exit,c'⟩,hok,hc'⟩ := Option.map_eq_some_iff.mp hcall
  obtain ⟨hexit,hvs,howed⟩ : exit = .ret .enoexec ∧ c'.vmspace = some 0x80012000 ∧
      c'.owed = [0x80012000,0x80011000] := by simpa using hc'
  subst hexit
  refine ⟨s,c',hs,program_held hs,ok_of_toOption hok,fun hres => ?_,fun hacc => ?_,rfl⟩
  · have h : some 0x80012000 = some 0x80011000 := hvs.symm.trans hres.vmspace
    exact absurd h (by decide)
  · have h := hvs.symm.trans (hacc 0x80011000 (by simp [howed]))
    exact absurd h (by decide)

end OS161.Execv
