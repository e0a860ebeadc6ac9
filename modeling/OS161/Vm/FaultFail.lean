import OS161.Vm.Exclusive
import OS161.Vm.Bootstrap

namespace OS161

structure FailsClean (vm : Vm) (as : Nat) (sp : AddrSpace) (fa : Nat) : Prop where
  stack : ∀ code vm', incStack vm as sp fa = (.failed code, vm') → vm' = vm
  heap : ∀ code vm', incHeap vm as sp fa = (.failed code, vm') → vm' = vm
  fault : ∀ faulttype random vm',
    vmFault vm (some as) faulttype fa random = .ok (some .efault, vm') → vm' = vm

def TableAfterFrame (vm : Vm) (sp : AddrSpace) (fa : Nat) : Prop :=
  ∀ i phys, allocatePhysicalPage vm.phys = some (i, phys) → sp.lvone (l1Index fa) = none →
    (kmallocPages sizeofLv2pt phys).1 ≠ 0

section
variable {vm vm' : Vm} {as fa l1 : Nat} {sp : AddrSpace} {code : Int}

theorem lv2Table_none : lv2Table vm as sp l1 = none ↔
    sp.lvone l1 = none ∧ (kmallocPages sizeofLv2pt vm.phys).1 = 0 := by
  unfold lv2Table
  cases hlv : sp.lvone l1 with
  | some table => simp
  | none =>
    split <;> simp_all

theorem incPage_failed (h : incPage vm as sp fa = (.failed code, vm')) :
    vm' = vm ∨ ∃ i phys, allocatePhysicalPage vm.phys = some (i, phys) ∧
      sp.lvone (l1Index fa) = none ∧ (kmallocPages sizeofLv2pt phys).1 = 0 := by
  unfold incPage at h
  split at h
  · exact .inl (Prod.mk.inj h).2.symm
  · rename_i i phys ha
    dsimp only at h
    split at h
    · rename_i htable
      obtain ⟨hlv,hfull⟩ := lv2Table_none.mp htable
      exact .inr ⟨i,phys,ha,hlv,hfull⟩
    · cases (Prod.mk.inj h).1

theorem incStack_failed (h : incStack vm as sp fa = (.failed code, vm')) :
    incPage vm as sp fa = (.failed code, vm') := by
  unfold incStack at h
  split at h
  · rename_i hinc
    rw [hinc]
    exact h
  · cases (Prod.mk.inj h).1

theorem TableAfterFrame.incPage (ht : TableAfterFrame vm sp fa)
    (h : incPage vm as sp fa = (.failed code, vm')) : vm' = vm := by
  rcases incPage_failed h with heq | ⟨i,phys,ha,hlv,hfull⟩
  · exact heq
  · exact absurd hfull (ht i phys ha hlv)

theorem TableAfterFrame.faultPaddr (ht : TableAfterFrame vm sp fa)
    (h : faultPaddr vm as sp fa = (.failed code, vm')) : vm' = vm := by
  unfold OS161.faultPaddr at h
  split at h
  · cases (Prod.mk.inj h).1
  · split at h
    · exact ht.incPage (incStack_failed h)
    · exact ht.incPage h
    · exact (Prod.mk.inj h).2.symm

theorem installPage_efault {random : Nat} {r : IncRet × Vm}
    (h : installPage fa random r = .ok (some .efault, vm')) : ∃ code, r = (.failed code, vm') := by
  obtain ⟨ret,vm₁⟩ := r
  cases ret with
  | failed code =>
    cases h
    exact ⟨code,rfl⟩
  | mapped paddr =>
    by_cases ha : pageFrame paddr = paddr
    · obtain ⟨-,tlb,-,hok⟩ := @installPage_mapped fa random paddr vm₁ ha
      rw [hok] at h
      cases h
    · rw [installPage_misaligned vm₁ ha] at h
      cases h

theorem l1Index_pageFrame (fa : Nat) : l1Index (pageFrame fa) = l1Index fa := by
  unfold l1Index pageFrame
  omega

theorem failed_fault_changes_nothing_iff (hsp : vm.spaces as = some sp) :
    FailsClean vm as sp fa ↔ TableAfterFrame vm sp fa := by
  constructor
  · intro h i phys ha hlv hfull
    have htable : lv2Table { vm with phys := phys } as sp (l1Index fa) = none :=
      lv2Table_none.mpr ⟨hlv,hfull⟩
    have hinc : incHeap vm as sp fa = (.failed 4, { vm with phys := phys }) := by
      simp only [incHeap,incPage,ha,htable]
    have hsame : phys = vm.phys := congrArg Vm.phys (h.heap _ _ hinc)
    rcases allocatePhysicalPage_cases vm.phys with ⟨hnone,-⟩ | ⟨j,-,hfree,hgot⟩
    · rw [hnone] at ha
      cases ha
    · rw [hgot] at ha
      obtain ⟨rfl,rfl⟩ := Prod.mk.inj (Option.some_inj.mp ha)
      have htaken := congrArg (fun p : Phys => (p.coremap.entries j).allocated) hsame
      simp only [Coremap.entries_setEntry,Function.update_self,hfree] at htaken
      cases htaken
  · intro ht
    refine ⟨fun code vm' h => ht.incPage (incStack_failed h),fun code vm' h => ht.incPage h,
      fun ft random vm' h => ?_⟩
    have hro : ft ≠ .readonly := fun hro => by
      rw [hro] at h
      cases h
    rw [vmFault_eq hsp hro] at h
    obtain ⟨code,hfault⟩ := installPage_efault h
    have ht' : TableAfterFrame vm sp (pageFrame fa) := by
      unfold TableAfterFrame
      rw [l1Index_pageFrame]
      exact ht
    exact ht'.faultPaddr hfault

end

def crowded (npages : Int) : Option Sys :=
  Run.exec vmStep (Sys.boot smallRam zeroRam tlbInvalid)
    [.asCreate zeroSpace, .asDefineStack 0x80011000, .allocKpages npages]

theorem failed_fault_changes_nothing_full : ∃ s sp, crowded 14 = some s ∧
    s.vm.spaces 0x80011000 = some sp ∧ (incStack s.vm 0x80011000 sp 0x7ffff000).1 = .failed (-1) ∧
    FailsClean s.vm 0x80011000 sp 0x7ffff000 := by
  have hview : (crowded 14).bind (fun s => (s.vm.spaces 0x80011000).map fun sp =>
      ((incStack s.vm 0x80011000 sp 0x7ffff000).1, (allocatePhysicalPage s.vm.phys).isNone)) =
      some (.failed (-1), true) := by decide +kernel
  obtain ⟨s,hs,hmap⟩ := Option.bind_eq_some_iff.mp hview
  obtain ⟨sp,hsp,heq⟩ := Option.map_eq_some_iff.mp hmap
  obtain ⟨hret,hnone⟩ := Prod.mk.inj heq
  refine ⟨s,sp,hs,hsp,hret,(failed_fault_changes_nothing_iff hsp).mpr fun i phys ha => ?_⟩
  rw [ha] at hnone
  cases hnone

theorem failed_fault_loses_frame : ∃ s sp vm', crowded 13 = some s ∧
    s.vm.spaces 0x80011000 = some sp ∧
    vmFault s.vm (some 0x80011000) .write 0x7ffff000 0 = .ok (some .efault, vm') ∧
    (s.vm.coremap.entries 14).allocated = 0 ∧ (vm'.coremap.entries 14).allocated = 1 ∧
    ¬ FailsClean s.vm 0x80011000 sp 0x7ffff000 := by
  have hview : (crowded 13).bind (fun s => (s.vm.spaces 0x80011000).bind fun sp =>
      (vmFault s.vm (some 0x80011000) .write 0x7ffff000 0).toOption.map fun r =>
        (r.1, (s.vm.coremap.entries 14).allocated, (r.2.coremap.entries 14).allocated)) =
      some (some .efault, 0, 1) := by decide +kernel
  obtain ⟨s,hs,hbind⟩ := Option.bind_eq_some_iff.mp hview
  obtain ⟨sp,hsp,hmap⟩ := Option.bind_eq_some_iff.mp hbind
  obtain ⟨⟨e,vm'⟩,hfault,heq⟩ := Option.map_eq_some_iff.mp hmap
  simp only [Prod.mk.injEq] at heq
  obtain ⟨rfl,hbefore,hafter⟩ := heq
  have hok := ok_of_toOption hfault
  refine ⟨s,sp,vm',hs,hsp,hok,hbefore,hafter,fun h => ?_⟩
  rw [h.fault _ _ _ hok,hbefore] at hafter
  cases hafter

end OS161
