import OS161.Vm.Exclusive

namespace OS161

def HeapPage (sp : AddrSpace) (fa : Nat) : Prop :=
  ∃ x, fa ≤ x ∧ x < fa + pageSize ∧ sp.heapStart ≤ x ∧ x < sp.heapEnd

def StackPage (sp : AddrSpace) (fa : Nat) : Prop :=
  u32 (sp.eoStack - pageSize) ≤ fa ∧ fa < userstack ∧ userstack - fa ≤ stackSize

def Legal (sp : AddrSpace) (fa : Nat) : Prop := HeapPage sp fa ∨ StackPage sp fa

def Refused (vm : Vm) (as : Nat) (faulttype : FaultType) (fa random : Nat) : Prop :=
  ∃ vm', vmFault vm (some as) faulttype fa random = .ok (some .efault, vm') ∧
    vm'.tableAt = vm.tableAt ∧ vm'.tables = vm.tables ∧ vm'.coremap = vm.coremap

def AddrSpace.Aligned (sp : AddrSpace) : Prop := sp.eoStack % 4096 = 0 ∧ sp.heapStart % 4096 = 0

def SpacesAligned (vm : Vm) : Prop := ∀ as sp, vm.spaces as = some sp → sp.Aligned

theorem offT_aligned {x : Int} (h : x % 4096 = 0) : offT x % 4096 = 0 := by
  unfold offT
  rw [Int.bmod_def]
  split <;> omega

theorem spacesAligned_setSpace {vm : Vm} (ha : SpacesAligned vm) {as : Nat} {sp : AddrSpace}
    (hsp : sp.Aligned) : SpacesAligned (vm.setSpace as sp) := by
  intro as' sp' h
  simp only [Vm.setSpace,Function.update_apply] at h
  split at h
  case isTrue => exact Option.some_inj.mp h ▸ hsp
  case isFalse => exact ha _ _ h

theorem asDefineRegion_aligned {sp : AddrSpace} (ha : sp.Aligned) (vaddr sz counter : Nat) :
    (asDefineRegion sp vaddr sz counter).2.Aligned := by
  have htop : ∀ x y : Nat, u32 (pageFrame x + pageFrame y) % 4096 = 0 := by
    intro x y
    unfold pageFrame u32
    omega
  unfold asDefineRegion
  dsimp only
  split
  · split
    · exact ⟨ha.1,htop _ _⟩
    · exact ha
  · split
    · split
      · exact ⟨ha.1,htop _ _⟩
      · exact ha
    · exact ha

theorem sysSbrk_aligned {sp : AddrSpace} (ha : sp.Aligned) (size : Int) :
    (sysSbrk size sp).2.Aligned := by
  unfold sysSbrk
  dsimp only
  split
  · exact ha
  · split <;> exact ha

theorem lv2Table_aligned {vm vm' : Vm} {as l1 t : Nat} {sp : AddrSpace} (ha : SpacesAligned vm)
    (hsp : sp.Aligned) (h : lv2Table vm as sp l1 = some (t, vm')) : SpacesAligned vm' := by
  unfold lv2Table at h
  split at h
  · cases h
    exact ha
  · dsimp only at h
    split at h
    · cases h
    · cases h
      refine spacesAligned_setSpace ?_ ?_
      · exact ha
      · exact hsp

theorem incPage_aligned {vm : Vm} {as fa : Nat} {sp : AddrSpace} (ha : SpacesAligned vm)
    (hsp : sp.Aligned) : SpacesAligned (incPage vm as sp fa).2 := by
  unfold incPage
  split
  · exact ha
  · dsimp only
    split
    · exact ha
    · rename_i h
      have hall := lv2Table_aligned ?_ hsp h
      · exact hall
      · exact ha

theorem shrinkStack_aligned {vm : Vm} {as : Nat} (ha : SpacesAligned vm) :
    SpacesAligned (shrinkStack vm as) := by
  unfold shrinkStack
  split
  · exact ha
  · rename_i sp hsp
    obtain ⟨heo,hheap⟩ := ha _ _ hsp
    exact spacesAligned_setSpace ha ⟨offT_aligned (by omega),hheap⟩

theorem faultPaddr_aligned {vm : Vm} {as fa : Nat} {sp : AddrSpace} (ha : SpacesAligned vm)
    (hsp : sp.Aligned) : SpacesAligned (faultPaddr vm as sp fa).2 := by
  have hinc := @incPage_aligned vm as fa sp ha hsp
  unfold faultPaddr
  split
  · exact ha
  · split
    · unfold incStack
      split <;> rename_i h <;> rw [h] at hinc
      · exact hinc
      · exact shrinkStack_aligned hinc
    · exact hinc
    · exact ha

theorem installPage_spaces {fa random : Nat} {r : IncRet × Vm} {out : Option Errno × Vm}
    (h : installPage fa random r = .ok out) : out.2.spaces = r.2.spaces := by
  obtain ⟨ret,vm⟩ := r
  cases ret with
  | failed code =>
    rw [installPage_failed] at h
    cases h
    rfl
  | mapped paddr =>
    by_cases halign : pageFrame paddr = paddr
    · obtain ⟨-,tlb,-,hok⟩ := @installPage_mapped fa random paddr vm halign
      rw [hok] at h
      cases h
      rfl
    · rw [installPage_misaligned vm halign] at h
      cases h

theorem editSpace_aligned {s s' : Sys} {as : Nat} {f : AddrSpace → AddrSpace}
    (ha : SpacesAligned s.vm) (hf : ∀ sp : AddrSpace, sp.Aligned → (f sp).Aligned)
    (h : s.editSpace as f = some s') : SpacesAligned s'.vm := by
  simp only [Sys.editSpace,Option.map_eq_some_iff] at h
  obtain ⟨sp,hsp,rfl⟩ := h
  exact spacesAligned_setSpace ha (hf sp (ha _ _ hsp))

theorem vmStep_aligned {s s' : Sys} {op : VmOp} (ha : SpacesAligned s.vm)
    (hstep : vmStep s op = some s') : SpacesAligned s'.vm := by
  cases op with
  | allocKpages npages | asActivate =>
    cases hstep
    exact ha
  | freeKpages a =>
    obtain ⟨-,⟨⟩⟩ := Option.ite_none_right_eq_some.mp hstep
    exact ha
  | asCreate junk =>
    simp only [vmStep,asCreate] at hstep
    split at hstep <;> rename_i h
    · cases hstep
      split at h
      · cases h
        exact ha
      · cases h
    · cases hstep
      split at h
      · cases h
      · cases h
        exact @spacesAligned_setSpace s.vm ha _ _ ⟨rfl,rfl⟩
  | asDestroy as =>
    simp only [vmStep,Option.map_eq_some_iff] at hstep
    obtain ⟨sp,-,rfl⟩ := hstep
    intro as' sp' h
    simp only [asDestroy,destroyTables_spaces,Function.update_apply] at h
    split at h
    · cases h
    · exact ha _ _ h
  | asDefineRegion as vaddr sz counter =>
    exact editSpace_aligned ha (fun sp h => asDefineRegion_aligned h _ _ _) hstep
  | asDefineStack as =>
    exact editSpace_aligned (f := asDefineStack) ha (fun sp h => ⟨rfl,h.2⟩) hstep
  | sysSbrk as size => exact editSpace_aligned ha (fun sp h => sysSbrk_aligned h _) hstep
  | vmFault as ft fa random =>
    cases as with
    | none =>
      rw [fault_none hstep]
      exact ha
    | some as =>
      obtain ⟨sp,e,vm',-,-,hsp,hins,rfl⟩ := fault_some hstep
      intro as' sp' h
      have hspaces : vm'.spaces = _ := installPage_spaces hins
      rw [hspaces] at h
      exact faultPaddr_aligned ha (ha _ _ hsp) _ _ h

theorem not_nowhere_iff (sp : AddrSpace) (fa : Nat) : position sp fa ≠ .nowhere ↔
    stackSpent sp = true ∨ (fa ≤ userstack ∧ u32 (sp.eoStack - 4096) ≤ fa) ∨
      (sp.heapStart ≤ fa ∧ fa ≤ sp.heapEnd) := by
  unfold position
  by_cases h1 : stackSpent sp = true <;>
    by_cases h2 : fa ≤ userstack ∧ u32 (sp.eoStack - 4096) ≤ fa <;>
    by_cases h3 : sp.heapStart ≤ fa ∧ fa ≤ sp.heapEnd <;> simp [h1,h2,h3]

theorem stackPage_of_unspent {sp : AddrSpace} {fa : Nat} (ha : sp.Aligned)
    (hfa : fa < userstack) (hs : ¬ stackSpent sp = true)
    (hle : u32 (sp.eoStack - 4096) ≤ fa) : StackPage sp fa := by
  have heo := ha.1
  have hroom : u32 (userstack - sp.eoStack) < stackSize := by simpa [stackSpent] using hs
  refine ⟨hle,hfa,?_⟩
  unfold u32 stackSize userstack mipsKseg0 at *
  omega

theorem heapPage_iff {sp : AddrSpace} {fa : Nat} (ha : sp.Aligned) (hfa : fa % 4096 = 0) :
    HeapPage sp fa ↔ sp.heapStart ≤ fa ∧ fa < sp.heapEnd := by
  have hheap := ha.2
  unfold HeapPage pageSize
  constructor
  · rintro ⟨x,hx⟩
    omega
  · exact fun h => ⟨fa,by omega⟩

theorem illegal_position_iff {sp : AddrSpace} {fa : Nat} (ha : sp.Aligned) (hfa : fa % 4096 = 0)
    (htop : fa < userstack) (hill : ¬ Legal sp fa) : position sp fa ≠ .nowhere ↔
      stackSpent sp = true ∨ (sp.heapStart ≤ fa ∧ fa = sp.heapEnd) := by
  have hheap : ¬ (sp.heapStart ≤ fa ∧ fa < sp.heapEnd) := fun h =>
    hill (Or.inl ((heapPage_iff ha hfa).mpr h))
  rw [not_nowhere_iff]
  constructor
  · rintro (h | ⟨-,hle⟩ | h)
    · exact Or.inl h
    · by_contra hno
      push Not at hno
      exact hill (Or.inr (stackPage_of_unspent ha htop hno.1 hle))
    · exact Or.inr (by omega)
  · rintro (h | ⟨h,rfl⟩)
    · exact Or.inl h
    · exact Or.inr (Or.inr ⟨h,Nat.le_refl _⟩)

theorem Held.refused_iff {s : Sys} {own : Nat → Option Owner} (hh : Held s own) {as fa : Nat}
    {sp : AddrSpace} {ft : FaultType} (hsp : s.vm.spaces as = some sp) (hfa : fa < usertop)
    (hft : ft ≠ .readonly) (hno : pageEntryOf s.vm sp (pageFrame fa) = none) (random : Nat) :
    Refused s.vm as ft fa random ↔ position sp (pageFrame fa) = .nowhere ∨
      ∀ i < s.vm.coremap.count, (s.vm.coremap.entries i).allocated ≠ 0 := by
  unfold Refused
  rw [vmFault_eq hsp hft]
  rcases hh.faultPaddr_cases hsp (l1Index_lt hfa) with ⟨pe,hpe,-⟩ | ⟨-,⟨hpos,hp⟩ |
    ⟨hpos,⟨hp,hfull⟩ | ⟨i,phys,ha,-,-,hp⟩ | ⟨i,vm1,own',hall,hp,hg⟩⟩⟩
  · rw [hno] at hpe
    cases hpe
  · rw [hp,installPage_failed]
    exact iff_of_true ⟨s.vm,rfl,rfl,rfl,rfl⟩ (Or.inl hpos)
  · rw [hp,installPage_failed]
    exact iff_of_true ⟨s.vm,rfl,rfl,rfl,rfl⟩ (Or.inr hfull)
  · obtain ⟨j,hj,hfree,hj'⟩ := (allocatePhysicalPage_cases s.vm.phys).resolve_left
      (fun h => by rw [h.1] at ha; cases ha)
    rw [ha] at hj'
    obtain rfl : i = j := (Prod.mk.inj (Option.some_inj.mp hj')).1
    refine iff_of_false ?_ (fun h => h.elim hpos fun hfull => hfull i hj hfree)
    rintro ⟨vm',heq,-,-,hco⟩
    rw [hp,installPage_failed] at heq
    cases heq
    have hmark := s.vm.mark_allocated i
    rw [hco,hfree] at hmark
    cases hmark
  · have hlt : i < s.vm.coremap.count := by
      rw [← hg.frames.count]
      exact (hg.held.ledger.bound hg.owner).1
    refine iff_of_false ?_ (fun h => h.elim hpos fun hfull => hfull i hlt hall)
    rintro ⟨vm',heq,-⟩
    have halign := Coremap.frameAddr_aligned hh.ledger.sane hlt
    obtain ⟨-,tlb,-,hok⟩ := @installPage_mapped (pageFrame fa) random
      (s.vm.coremap.frameAddr i) vm1 (by unfold pageFrame; omega)
    rw [hp,hok] at heq
    cases heq

theorem boot_aligned (ram : Ram) (entries : Nat → CoremapEntry) (tlb : Nat → TlbEntry) :
    SpacesAligned (Sys.boot ram entries tlb).vm := by
  intro as sp h
  cases h

theorem illegal_refused_iff {ram : Ram} {entries : Nat → CoremapEntry} {tlb : Nat → TlbEntry}
    {ops : List VmOp} {s : Sys} {as fa : Nat} {sp : AddrSpace} {ft : FaultType}
    (hram : ram.Accepted) (hops : ∀ op ∈ ops, op.disciplined)
    (hrun : Run.exec vmStep (Sys.boot ram entries tlb) ops = some s)
    (hsp : s.vm.spaces as = some sp) (hfa : fa < usertop) (hft : ft ≠ .readonly)
    (hno : pageEntryOf s.vm sp (pageFrame fa) = none) (random : Nat) :
    (¬ Legal sp (pageFrame fa) → Refused s.vm as ft fa random) ↔
      (Legal sp (pageFrame fa) ∨
        (∀ i < s.vm.coremap.count, (s.vm.coremap.entries i).allocated ≠ 0) ∨
        ¬ (stackSpent sp = true ∨ (sp.heapStart ≤ pageFrame fa ∧ pageFrame fa = sp.heapEnd))) := by
  obtain ⟨own,hh⟩ := (held_boot hram entries tlb).run hops hrun
  have haligned : SpacesAligned s.vm :=
    Run.invariant (I := fun s : Sys => SpacesAligned s.vm) (P := fun _ _ => True)
      (fun _ _ _ h _ hstep => vmStep_aligned h hstep) (boot_aligned ram entries tlb)
      (Run.along_of_forall fun _ _ => trivial) hrun
  have hpage : pageFrame fa % 4096 = 0 := Nat.mul_mod_left _ _
  have htop : pageFrame fa < userstack := Nat.lt_of_le_of_lt (Nat.div_mul_le_self _ _) hfa
  by_cases hill : Legal sp (pageFrame fa)
  · exact iff_of_true (fun h => absurd hill h) (Or.inl hill)
  · have hposition := illegal_position_iff (haligned as sp hsp) hpage htop hill
    rw [← hposition,not_not,hh.refused_iff hsp hfa hft hno random]
    simp only [hill,not_false_eq_true,forall_true_left,false_or]
    exact or_comm

def loadedProgram : Sys × List VmOp :=
  (Sys.boot ⟨0x10000, 0x19000⟩ (fun _ => zeroEntry) tlbInvalid,
    [.asCreate zeroSpace, .asDefineRegion 0x80011000 0x400000 0x1000 0,
      .asDefineStack 0x80011000])

theorem unmapped_hole_refused :
    ∃ s sp, Run.exec vmStep loadedProgram.1 loadedProgram.2 = some s ∧
      s.vm.spaces 0x80011000 = some sp ∧
      (¬ Legal sp (pageFrame 0x10000000) → Refused s.vm 0x80011000 .read 0x10000000 0) := by
  have hview : (Run.exec vmStep loadedProgram.1 loadedProgram.2).bind (fun s =>
      (s.vm.spaces 0x80011000).map fun sp =>
        (pageEntryOf s.vm sp (pageFrame 0x10000000), stackSpent sp, sp.heapEnd)) =
      some (none, false, 0x401000) := by decide +kernel
  obtain ⟨s,hs,hview⟩ := Option.bind_eq_some_iff.mp hview
  obtain ⟨sp,hsp,hview⟩ := Option.map_eq_some_iff.mp hview
  obtain ⟨hno,hspent,hend⟩ := by simpa only [Prod.mk.injEq] using hview
  have hd : ∀ op ∈ loadedProgram.2, op.disciplined := by
    simp [loadedProgram,VmOp.disciplined,zeroSpace]
  refine ⟨s,sp,hs,hsp,(illegal_refused_iff ⟨by decide,by decide,by decide,by decide⟩ hd hs
    hsp (by decide) (by decide) hno 0).mpr (Or.inr (Or.inr ?_))⟩
  rw [hspent,hend]
  decide +revert

theorem empty_heap_page_granted :
    ∃ s sp, Run.exec vmStep loadedProgram.1 loadedProgram.2 = some s ∧
      s.vm.spaces 0x80011000 = some sp ∧ pageEntryOf s.vm sp (pageFrame 0x401000) = none ∧
      ¬ Legal sp (pageFrame 0x401000) ∧ ¬ Refused s.vm 0x80011000 .read 0x401000 0 := by
  have hview : (Run.exec vmStep loadedProgram.1 loadedProgram.2).bind (fun s =>
      (s.vm.spaces 0x80011000).map fun sp =>
        (pageEntryOf s.vm sp (pageFrame 0x401000), sp.heapStart, sp.heapEnd,
          u32 (sp.eoStack - pageSize),
          (vmFault s.vm (some 0x80011000) .read 0x401000 0).toOption.map (·.1.isNone))) =
      some (none, 0x401000, 0x401000, 0x7ffff000, some true) := by decide +kernel
  obtain ⟨s,hs,hview⟩ := Option.bind_eq_some_iff.mp hview
  obtain ⟨sp,hsp,hview⟩ := Option.map_eq_some_iff.mp hview
  obtain ⟨hno,hstart,hend,heo,hret⟩ := by simpa only [Prod.mk.injEq] using hview
  refine ⟨s,sp,hs,hsp,hno,?_,?_⟩
  · rintro (⟨x,-,-,hx,hx'⟩ | ⟨hle,-⟩)
    · omega
    · rw [heo] at hle
      revert hle
      decide
  · rintro ⟨vm',heq,-⟩
    rw [heq] at hret
    simp [Except.toOption] at hret

end OS161
