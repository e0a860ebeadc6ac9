import OS161.Vm.Exclusive

namespace OS161

open Holding

def Installs (vm : Vm) (as : Nat) (faulttype : FaultType) (fa random paddr : Nat) : Prop :=
  ∃ i tlb, tlbInstall vm.tlb random ⟨pageFrame fa, paddr ||| tlbloDirty ||| tlbloValid⟩ =
      some (i, tlb) ∧
    vmFault vm (some as) faulttype fa random = .ok (none, { vm with tlb := tlb })

theorem tlblo_inj {p q : Nat} (hp : p % 4096 = 0) (hq : q % 4096 = 0)
    (h : p ||| tlbloDirty ||| tlbloValid = q ||| tlbloDirty ||| tlbloValid) : p = q := by
  have hshift := congrArg (· >>> 12) h
  simp only [Nat.shiftRight_or_distrib,show tlbloDirty >>> 12 = 0 from rfl,
    show tlbloValid >>> 12 = 0 from rfl,Nat.or_zero] at hshift
  rw [Nat.shiftRight_eq_div_pow,Nat.shiftRight_eq_div_pow] at hshift
  omega

theorem tlbInstall_inj {tlb tlb' : Nat → TlbEntry} {random i j : Nat} {e e' : TlbEntry}
    (h : tlbInstall tlb random e = some (i, tlb'))
    (h' : tlbInstall tlb random e' = some (j, tlb')) : e = e' := by
  obtain ⟨k,base,-,heq⟩ := tlbInstall_eq tlb random
  rw [heq] at h h'
  cases h
  have hi := congrArg (fun r => r.map fun r => r.2 i) h'
  simpa using hi.symm

section Refault
variable {s s' : Sys} {own : Nat → Option Owner}

theorem Held.fault_maps (hh : Held s own) {as fa random paddr : Nat} {ft : FaultType}
    {sp : AddrSpace} {vm' : Vm} (hsp : s.vm.spaces as = some sp)
    (hnew : pageEntryOf s.vm sp (pageFrame fa) = none)
    (hmap : faultPaddr s.vm as sp (pageFrame fa) = (.mapped paddr, vm'))
    (hstep : vmStep s (.vmFault (some as) ft fa random) = some s') :
    ∃ own' i, Held s' own' ∧ s.vm.coremap.SameFrames s'.vm.coremap ∧
      own' i = some (.page as (l1Index (pageFrame fa)) (l2Index (pageFrame fa))) ∧
      paddr = s.vm.coremap.frameAddr i := by
  obtain ⟨sp',e,vm'',hfa,-,hsp',hins,rfl⟩ := fault_some hstep
  obtain rfl : sp' = sp := Option.some_inj.mp (hsp'.symm.trans hsp)
  rw [hmap] at hins
  rcases hh.faultPaddr_cases hsp (l1Index_lt hfa) with ⟨pe,hpe,-⟩ | ⟨-,⟨-,hp⟩ | ⟨-,⟨hp,-⟩ |
    ⟨i,phys,-,-,-,hp⟩ | ⟨i,vm1,own',hall,hp,hg⟩⟩⟩
  · rw [hnew] at hpe
    cases hpe
  · rw [hmap] at hp
    cases hp
  · rw [hmap] at hp
    cases hp
  · rw [hmap] at hp
    cases hp
  · rw [hmap] at hp
    cases hp
    by_cases halign : pageFrame (s.vm.coremap.frameAddr i) = s.vm.coremap.frameAddr i
    · obtain ⟨-,tlb,-,hok⟩ := installPage_mapped vm' halign
      rw [hok] at hins
      cases hins
      exact ⟨own',i,hg.held.setTlb tlb,hg.frames,hg.owner,rfl⟩
    · rw [installPage_misaligned vm' halign] at hins
      cases hins

theorem Held.page_run (hh : Held s own) {i as l1 l2 : Nat} (ho : own i = some (.page as l1 l2))
    {ops : List VmOp} (hd : ∀ op ∈ ops, op.disciplined) (halive : ∀ op ∈ ops, op ≠ .asDestroy as)
    (hrun : Run.exec vmStep s ops = some s') :
    ∃ own', Held s' own' ∧ s.vm.coremap.SameFrames s'.vm.coremap ∧
      own' i = some (.page as l1 l2) := by
  refine Run.invariant (I := fun t => ∃ own', Held t own' ∧
    s.vm.coremap.SameFrames t.vm.coremap ∧ own' i = some (.page as l1 l2)) ?_
    ⟨own,hh,Coremap.SameFrames.refl _,ho⟩
    (Run.along_of_forall (P := fun op => op.disciplined ∧ op ≠ .asDestroy as)
      fun op hop => ⟨hd op hop,halive op hop⟩) hrun
  rintro t op t' ⟨own1,hh1,hs1,ho1⟩ ⟨hop,hne⟩ hstep
  obtain ⟨own2,he⟩ := hh1.step hop hstep
  exact ⟨own2,he.held,hs1.trans he.frames,he.kept ho1 hne⟩

section
variable {i as fa : Nat} {ft : FaultType} (hh : Held s own)
  (ho : own i = some (.page as (l1Index (pageFrame fa)) (l2Index (pageFrame fa))))
  (hft : ft ≠ .readonly) (random : Nat)
include hh ho hft random

theorem Held.refault :
    vmFault s.vm (some as) ft fa random = installPage (pageFrame fa) random
      (.mapped (s.vm.coremap.frameAddr i % 2 ^ 20), s.vm) := by
  obtain ⟨t,ht,hl2,hpe,-⟩ := hh.mapped.page ho
  obtain ⟨sp,hsp,hl1,ht⟩ := Vm.tableAt_some ht
  rw [vmFault_eq hsp hft]
  simp only [faultPaddr,pageEntryOf,ht,hpe,if_true]

theorem Held.installs_iff :
    Installs s.vm as ft fa random (s.vm.coremap.frameAddr i) ↔ s.vm.coremap.frameAddr i < 2 ^ 20 := by
  have halign := Coremap.frameAddr_aligned hh.ledger.sane (hh.ledger.bound ho).1
  obtain ⟨k,tlb,hinst,hok⟩ := @installPage_mapped (pageFrame fa) random
    (s.vm.coremap.frameAddr i % 2 ^ 20) s.vm (by unfold pageFrame; omega)
  unfold Installs
  rw [hh.refault ho hft random,hok]
  constructor
  · rintro ⟨j,tlb',hinst',heq⟩
    have htlb : tlb = tlb' := by simpa using heq
    rw [← htlb] at hinst'
    have hlo := congrArg TlbEntry.lo (tlbInstall_inj hinst hinst')
    have := tlblo_inj (by omega) halign hlo
    omega
  · intro hlt
    rw [Nat.mod_eq_of_lt hlt] at hinst
    exact ⟨k,tlb,hinst,rfl⟩

end

end Refault

theorem refault_translates_iff {ram : Ram} {entries : Nat → CoremapEntry} {tlb : Nat → TlbEntry}
    {ops later : List VmOp} {s s₁ s₂ : Sys} {as fa random paddr : Nat} {ft : FaultType}
    {sp : AddrSpace} {vm' : Vm} (hram : ram.Accepted) (hops : ∀ op ∈ ops, op.disciplined)
    (hrun : Run.exec vmStep (Sys.boot ram entries tlb) ops = some s)
    (hsp : s.vm.spaces as = some sp) (hnew : pageEntryOf s.vm sp (pageFrame fa) = none)
    (hmap : faultPaddr s.vm as sp (pageFrame fa) = (.mapped paddr, vm'))
    (hstep : vmStep s (.vmFault (some as) ft fa random) = some s₁)
    (hlater : ∀ op ∈ later, op.disciplined) (halive : ∀ op ∈ later, op ≠ .asDestroy as)
    (hrun' : Run.exec vmStep s₁ later = some s₂) :
    (∀ ft' fa' random', ft' ≠ .readonly → pageFrame fa' = pageFrame fa →
      (Installs s₂.vm as ft' fa' random' paddr ↔ paddr < 2 ^ 20)) ∧
    ∃ t i, s₂.vm.tableAt as (l1Index (pageFrame fa)) = some t ∧
      (s₂.vm.tables t (l2Index (pageFrame fa))).coremapPtr = some i ∧
      paddr = s₂.vm.coremap.freePagesStr + i * pageSize ∧
      ((s₂.vm.tables t (l2Index (pageFrame fa))).pageAddress =
        s₂.vm.coremap.freePagesStr + i * pageSize ↔ paddr < 2 ^ 20) := by
  obtain ⟨own,hh⟩ := (held_boot hram entries tlb).run hops hrun
  obtain ⟨own₁,i,hh₁,hframes₁,ho₁,rfl⟩ := hh.fault_maps hsp hnew hmap hstep
  obtain ⟨own₂,hh₂,hframes₂,ho₂⟩ := hh₁.page_run ho₁ hlater halive hrun'
  have haddr : s.vm.coremap.frameAddr i = s₂.vm.coremap.frameAddr i :=
    (congrFun (hframes₁.trans hframes₂).frameAddr i).symm
  have hlin : s₂.vm.coremap.frameAddr i = s₂.vm.coremap.freePagesStr + i * pageSize :=
    Coremap.frameAddr_eq hh₂.ledger.sane (hh₂.ledger.bound ho₂).1
  rw [haddr]
  constructor
  · intro ft' fa' random' hft hpage
    rw [← hpage] at ho₂
    exact hh₂.installs_iff ho₂ hft random'
  · obtain ⟨t,ht,-,hpe,-⟩ := hh₂.mapped.page ho₂
    refine ⟨t,i,ht,by rw [hpe],hlin,?_⟩
    rw [hpe,← hlin]
    dsimp only
    omega

def lowFrames : Sys × List VmOp :=
  (Sys.boot ⟨0x10000, 0x19000⟩ (fun _ => zeroEntry) tlbInvalid,
    [.asCreate zeroSpace, .asDefineStack 0x80011000])

theorem refault_translates_below_1mb :
    ∃ s s₁, Run.exec vmStep lowFrames.1 lowFrames.2 = some s ∧
      vmStep s (.vmFault (some 0x80011000) .write 0x7ffff000 0) = some s₁ ∧
      Installs (asActivate s₁.vm) 0x80011000 .read 0x7ffff123 5 0x12000 := by
  have hview : (Run.exec vmStep lowFrames.1 lowFrames.2).bind (fun s =>
      (s.vm.spaces 0x80011000).map fun sp =>
        (pageEntryOf s.vm sp (pageFrame 0x7ffff000),
          (faultPaddr s.vm 0x80011000 sp (pageFrame 0x7ffff000)).1,
          (vmStep s (.vmFault (some 0x80011000) .write 0x7ffff000 0)).isSome)) =
      some (none, .mapped 0x12000, true) := by decide +kernel
  obtain ⟨s,hs,hview⟩ := Option.bind_eq_some_iff.mp hview
  obtain ⟨sp,hsp,hview⟩ := Option.map_eq_some_iff.mp hview
  obtain ⟨hnew,hmap,hsome⟩ := by simpa only [Prod.mk.injEq] using hview
  obtain ⟨s₁,hs₁⟩ := Option.isSome_iff_exists.mp hsome
  refine ⟨s,s₁,hs,hs₁,?_⟩
  have hd : ∀ op ∈ lowFrames.2, op.disciplined := by
    simp [lowFrames,VmOp.disciplined,zeroSpace]
  have hrun' : Run.exec vmStep s₁ [.asActivate] = some { s₁ with vm := asActivate s₁.vm } := rfl
  have hstable := refault_translates_iff ⟨by decide,by decide,by decide,by decide⟩ hd hs hsp
    hnew (Prod.ext hmap rfl) hs₁ (by simp [VmOp.disciplined]) (by simp) hrun'
  exact (hstable.1 .read 0x7ffff123 5 (by decide) (by decide)).mpr (by decide)

def highFrames : Sys × List VmOp :=
  (Sys.boot ⟨0x100000, 0x109000⟩ (fun _ => zeroEntry) tlbInvalid,
    [.asCreate zeroSpace, .asDefineStack 0x80101000,
      .vmFault (some 0x80101000) .write 0x7ffff000 0])

theorem refault_above_1mb_moves :
    ∃ s, Run.exec vmStep highFrames.1 highFrames.2 = some s ∧
      s.vm.tlb 0 = ⟨0x7ffff000, 0x102000 ||| tlbloDirty ||| tlbloValid⟩ ∧
      ¬ Installs s.vm 0x80101000 .write 0x7ffff000 0 0x102000 := by
  have hview : (Run.exec vmStep highFrames.1 highFrames.2).map (fun s => (s.vm.tlb 0,
      (vmFault s.vm (some 0x80101000) .write 0x7ffff000 0).toOption.map fun r => r.2.tlb 1,
      (tlbInstall s.vm.tlb 0 ⟨0x7ffff000,0x102000 ||| tlbloDirty ||| tlbloValid⟩).map
        fun r => r.2 1)) =
      some (⟨0x7ffff000,0x102600⟩, some ⟨0x7ffff000,0x2600⟩,
        some ⟨0x7ffff000,0x102600⟩) := by decide +kernel
  obtain ⟨s,hs,hview⟩ := Option.map_eq_some_iff.mp hview
  obtain ⟨htlb,hfault,hinst⟩ := by simpa only [Prod.mk.injEq] using hview
  refine ⟨s,hs,htlb,?_⟩
  rintro ⟨i,tlb,hinst',hfault'⟩
  rw [hfault'] at hfault
  rw [show pageFrame 0x7ffff000 = 0x7ffff000 by decide] at hinst'
  rw [hinst'] at hinst
  have heq : (⟨0x7ffff000,0x2600⟩ : TlbEntry) = ⟨0x7ffff000,0x102600⟩ :=
    (Option.some_inj.mp hfault).symm.trans (Option.some_inj.mp hinst)
  exact absurd heq (by decide)

end OS161
