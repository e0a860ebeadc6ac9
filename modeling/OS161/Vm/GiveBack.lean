import OS161.Vm.Growth
import OS161.Vm.Exclusive

namespace OS161

def VmOp.ofSpace (as : Nat) : VmOp → Prop
  | .asDefineRegion a _ _ _ | .asDefineStack a | .sysSbrk a _ => a = as
  | .vmFault a _ _ _ => a = some as
  | .asActivate => True
  | _ => False

def takes (s : Sys) : VmOp → Bool
  | .vmFault (some as) _ fa _ =>
    match s.vm.spaces as with
    | none => false
    | some sp => takesFrame s.vm sp (pageFrame fa)
  | _ => false

structure Life (c₀ : Coremap) (as h : Nat) (vm : Vm) : Prop where
  sane : vm.coremap.Sane
  alive : vm.spaces as ≠ none
  placed : Placed vm as
  head : h < vm.coremap.count ∧ as = vm.coremap.kvaddr h
  new : (c₀.entries h).allocated ≠ 1
  self : vm.busy h ∧ (vm.coremap.entries h).continuous = 1
  kept : ∀ {i}, (c₀.entries i).allocated = 1 → vm.busy i
  pages : ∀ {l j i}, (vm.pageAt as l j).coremapPtr = some i →
    vm.busy i ∧ (c₀.entries i).allocated ≠ 1 ∧ i ≠ h

structure Clean (c₀ : Coremap) (as h : Nat) (vm : Vm) : Prop where
  tables : ∀ l, vm.tableAt as l = none
  frames : ∀ {i}, vm.busy i → (c₀.entries i).allocated = 1 ∨ i = h

def Lost (c₀ : Coremap) (as h : Nat) (vm : Vm) : Prop :=
  ∃ k, vm.busy k ∧ (c₀.entries k).allocated ≠ 1 ∧ k ≠ h ∧
    ∀ l j, (vm.pageAt as l j).coremapPtr ≠ some k

section Life
variable {c₀ : Coremap} {as h : Nat} {vm vm' : Vm}

theorem Life.same (hl : Life c₀ as h vm) (hcoremap : vm'.coremap = vm.coremap)
    (halive : vm'.spaces as ≠ none) (htab : ∀ l, vm'.tableAt as l = vm.tableAt as l)
    (htables : vm'.tables = vm.tables) :
    Life c₀ as h vm' ∧ (Lost c₀ as h vm → Lost c₀ as h vm') ∧
      (Clean c₀ as h vm → Clean c₀ as h vm') := by
  have hbusy : vm'.busy = vm.busy := by
    unfold Vm.busy
    rw [hcoremap]
  have hpage : ∀ l j, vm'.pageAt as l j = vm.pageAt as l j := fun l j => by
    unfold Vm.pageAt
    rw [htab,htables]
  refine ⟨⟨hcoremap ▸ hl.sane,halive,⟨fun ht => ?_,fun ht ht' => ?_⟩,hcoremap ▸ hl.head,hl.new,
    ?_,fun hi => hbusy ▸ hl.kept hi,fun hp => ?_⟩,?_,fun hc => ⟨fun l => ?_,fun hb => ?_⟩⟩
  · rw [hcoremap,hbusy]
    exact hl.placed.frame ((htab _).symm.trans ht)
  · exact hl.placed.inj ((htab _).symm.trans ht) ((htab _).symm.trans ht')
  · rw [hbusy,hcoremap]
    exact hl.self
  · rw [hpage] at hp
    rw [hbusy]
    exact hl.pages hp
  · rintro ⟨k,hb,h0,hne,hp⟩
    exact ⟨k,hbusy ▸ hb,h0,hne,fun l j => (hpage l j).symm ▸ hp l j⟩
  · rw [htab]
    exact hc.tables l
  · rw [hbusy] at hb
    exact hc.frames hb

theorem Life.took (hl : Life c₀ as h vm) {l1 l2 i : Nat} {ret : IncRet}
    (ht : Took as l1 l2 i vm ret vm') :
    Life c₀ as h vm' ∧ (Lost c₀ as h vm → Lost c₀ as h vm') ∧
      (Clean c₀ as h vm → Lost c₀ as h vm') := by
  have hfree : ∀ {k}, (vm.coremap.entries k).allocated = 0 →
      ¬ vm.busy k ∧ (c₀.entries k).allocated ≠ 1 ∧ k ≠ h := by
    intro k hk
    have hb : ¬ vm.busy k := fun hb => nomatch hb.symm.trans hk
    exact ⟨hb,fun h0 => hb (hl.kept h0),fun heq => hb (heq ▸ hl.self.1)⟩
  have hi := hfree ht.free
  refine ⟨⟨ht.grows.frames.sane hl.sane,ht.grows.alive,ht.grows.placed,?_,hl.new,?_,
    fun h0 => (ht.grows.kept (hl.kept h0)).1,fun hp => ?_⟩,?_,fun hc => ?_⟩
  · rw [ht.grows.frames.count,ht.grows.frames.kvaddr]
    exact hl.head
  · obtain ⟨hb,hcont⟩ := ht.grows.kept hl.self.1
    exact ⟨hb,(hcont fun heq => hi.2.2 heq.symm).trans hl.self.2⟩
  · rcases ht.grows.gained hp with hold | rfl
    · obtain ⟨hb,h0,hne⟩ := hl.pages hold
      exact ⟨(ht.grows.kept hb).1,h0,hne⟩
    · exact ⟨ht.taken,hi.2⟩
  · rintro ⟨k,hb,h0,hne,hp⟩
    refine ⟨k,(ht.grows.kept hb).1,h0,hne,fun l j hptr => ?_⟩
    rcases ht.grows.gained hptr with hold | rfl
    · exact hp l j hold
    · exact hi.1 hb
  · obtain ⟨k,hk,hbusy,hret⟩ := ht.spare (hc.tables l1)
    refine ⟨k,hbusy,(hfree hk).2.1,(hfree hk).2.2,fun l j hptr => ?_⟩
    have hold : ∀ l j, (vm.pageAt as l j).coremapPtr ≠ some k := fun l j hp => (hfree hk).1 (hl.pages hp).1
    rcases ht.grows.gained hptr with hp | rfl
    · exact hold l j hp
    · rcases ht.outcome with ⟨-,hsame⟩ | ⟨hmap,-⟩
      · exact hold l j (hsame l j ▸ hptr)
      · exact nomatch (hret rfl).symm.trans hmap

theorem Life.edit (hl : Life c₀ as h vm) {sp : AddrSpace} (hsp : vm.spaces as = some sp) {sp' : AddrSpace}
    (hlv : sp'.lvone = sp.lvone) :
    Life c₀ as h (vm.setSpace as sp') ∧ (Lost c₀ as h vm → Lost c₀ as h (vm.setSpace as sp')) ∧
      (Clean c₀ as h vm → Clean c₀ as h (vm.setSpace as sp')) :=
  hl.same rfl (by simp [Vm.setSpace]) (Vm.tableAt_congr (by simp [Vm.setSpace,hsp,hlv])) rfl

theorem Life.step {s s' : Sys} {op : VmOp} (hl : Life c₀ as h s.vm) (hop : op.ofSpace as)
    (hstep : vmStep s op = some s') :
    Life c₀ as h s'.vm ∧ (Lost c₀ as h s.vm → Lost c₀ as h s'.vm) ∧
      (Clean c₀ as h s.vm →
        (takes s op = false → Clean c₀ as h s'.vm) ∧ (takes s op = true → Lost c₀ as h s'.vm)) := by
  have hquiet : ∀ {vm'}, takes s op = false →
      (Life c₀ as h vm' ∧ (Lost c₀ as h s.vm → Lost c₀ as h vm') ∧
        (Clean c₀ as h s.vm → Clean c₀ as h vm')) →
      Life c₀ as h vm' ∧ (Lost c₀ as h s.vm → Lost c₀ as h vm') ∧
        (Clean c₀ as h s.vm →
          (takes s op = false → Clean c₀ as h vm') ∧ (takes s op = true → Lost c₀ as h vm')) :=
    fun hno hk => ⟨hk.1,hk.2.1,fun hc => ⟨fun _ => hk.2.2 hc,fun hy => by cases hno.symm.trans hy⟩⟩
  obtain ⟨sp,hsp⟩ := Option.ne_none_iff_exists'.mp hl.alive
  cases op with
  | allocKpages | freeKpages | asCreate | asDestroy => exact hop.elim
  | asActivate =>
    cases hstep
    exact hquiet rfl (hl.same rfl hl.alive (fun _ => rfl) rfl)
  | asDefineRegion a vaddr sz counter =>
    obtain rfl : a = as := hop
    simp only [vmStep,Sys.editSpace,hsp,Option.map_some,Option.some.injEq] at hstep
    subst hstep
    exact hquiet rfl (hl.edit hsp (lvone_asDefineRegion sp vaddr sz counter))
  | asDefineStack a =>
    obtain rfl : a = as := hop
    simp only [vmStep,Sys.editSpace,hsp,Option.map_some,Option.some.injEq] at hstep
    subst hstep
    exact hquiet rfl (hl.edit hsp rfl)
  | sysSbrk a size =>
    obtain rfl : a = as := hop
    simp only [vmStep,Sys.editSpace,hsp,Option.map_some,Option.some.injEq] at hstep
    subst hstep
    exact hquiet rfl (hl.edit hsp (lvone_sysSbrk size sp))
  | vmFault a ft fa random =>
    obtain rfl : a = some as := hop
    obtain ⟨sp',e,vm',hfa,-,hsp',hins,rfl⟩ := fault_some hstep
    obtain rfl : sp = sp' := Option.some_inj.mp (hsp.symm.trans hsp')
    have htakes : takes s (.vmFault (some as) ft fa random) = takesFrame s.vm sp (pageFrame fa) := by
      simp only [takes,hsp]
    rcases faultPaddr_took hl.sane hl.placed hsp (l1Index_lt hfa) with
      ⟨hno,ret,hp,-⟩ | ⟨hyes,i,ret,vm₁,hp,htook⟩
    · rw [hp] at hins
      obtain ⟨tlb,rfl⟩ := installPage_vm hins
      exact hquiet (htakes.trans hno) (hl.same rfl hl.alive (fun _ => rfl) rfl)
    · rw [hp] at hins
      obtain ⟨tlb,rfl⟩ := installPage_vm hins
      obtain ⟨hl₁,hlost,hclean⟩ := hl.took htook
      obtain ⟨hl₂,hlost₂,-⟩ :=
        @Life.same c₀ as h vm₁ { vm₁ with tlb := tlb } hl₁ rfl hl₁.alive (fun _ => rfl) rfl
      exact ⟨hl₂,fun h => hlost₂ (hlost h),fun hc =>
        ⟨fun hn => (by cases (htakes.trans hyes).symm.trans hn),fun _ => hlost₂ (hclean hc)⟩⟩

theorem Life.run {s s' : Sys} {ops : List VmOp} (hl : Life c₀ as h s.vm)
    (hops : ∀ op ∈ ops, op.ofSpace as) (hrun : Run.exec vmStep s ops = some s') :
    Life c₀ as h s'.vm ∧ (Lost c₀ as h s.vm → Lost c₀ as h s'.vm) ∧
      (Clean c₀ as h s.vm →
        (Run.Along vmStep (fun s op => takes s op = false) s ops ∧ Clean c₀ as h s'.vm) ∨
        (¬ Run.Along vmStep (fun s op => takes s op = false) s ops ∧ Lost c₀ as h s'.vm)) := by
  induction ops generalizing s with
  | nil =>
    cases hrun
    exact ⟨hl,id,fun hc => .inl ⟨trivial,hc⟩⟩
  | cons op ops ih =>
    obtain ⟨u,hu,hrun⟩ := Run.exec_cons.mp hrun
    obtain ⟨hl₁,hlost,hclean⟩ := hl.step (hops op List.mem_cons_self) hu
    obtain ⟨hl₂,hlost₂,hclean₂⟩ := ih hl₁ (fun o ho => hops o (List.mem_cons_of_mem _ ho)) hrun
    refine ⟨hl₂,fun h => hlost₂ (hlost h),fun hc => ?_⟩
    cases htakes : takes s op with
    | true =>
      refine .inr ⟨fun ha => ?_,hlost₂ ((hclean hc).2 htakes)⟩
      exact nomatch htakes.symm.trans ha.1
    | false =>
      rcases hclean₂ ((hclean hc).1 htakes) with ⟨ha,hc₂⟩ | ⟨ha,hl₃⟩
      · refine .inl ⟨⟨htakes,fun t ht => ?_⟩,hc₂⟩
        rw [hu] at ht
        cases ht
        exact ha
      · exact .inr ⟨fun ha' => ha (ha'.2 u hu),hl₃⟩

theorem Life.destroy (hl : Life c₀ as h vm) {sp : AddrSpace} (hsp : vm.spaces as = some sp) (i : Nat) :
    (asDestroy vm as sp).busy i ↔ vm.busy i ∧ i ≠ h ∧
      ¬ ∃ l < level1Size, ∃ j < level2Size, (vm.pageAt as l j).coremapPtr = some i := by
  have hpoint : ∀ i, (∃ l1 < level1Size, ∃ t, sp.lvone l1 = some t ∧ pointsTo (vm.tables t) i) ↔
      ∃ l < level1Size, ∃ j < level2Size, (vm.pageAt as l j).coremapPtr = some i := by
    intro i
    refine exists_congr fun l => and_congr_right fun hlt => ?_
    have ht := Vm.tableAt_of_space hsp hlt
    constructor
    · rintro ⟨t,hlv,j,hj,hp⟩
      exact ⟨j,hj,by rw [Vm.pageAt_of_table (ht.trans hlv)]; exact hp⟩
    · rintro ⟨j,hj,hp⟩
      cases hlv : sp.lvone l with
      | none =>
        rw [Vm.pageAt_of_none (ht.trans hlv)] at hp
        cases hp
      | some t =>
        rw [Vm.pageAt_of_table (ht.trans hlv)] at hp
        exact ⟨t,rfl,j,hj,hp⟩
  have hidx : kpageIndex (destroyTables vm sp).coremap as = h := by
    have hf := destroyTables_frames vm sp
    rw [hl.head.2,← hf.kvaddr]
    refine Coremap.kpageIndex_kvaddr (hf.sane hl.sane) ?_
    rw [hf.count]
    exact hl.head.1
  have hself : (destroyTables vm sp).coremap.entries h = vm.coremap.entries h := by
    rw [destroyTables_entries,if_neg]
    rw [hpoint]
    rintro ⟨l,-,j,-,hp⟩
    exact (hl.pages hp).2.2 rfl
  have halloc : ((asDestroy vm as sp).coremap.entries i).allocated =
      if i = h then 0 else ((destroyTables vm sp).coremap.entries i).allocated := by
    simp only [asDestroy,freeKpages,Vm.coremap,Coremap.setContinuous,Coremap.clearRun,
      Coremap.entries_setEntry,Function.update_apply]
    rw [hidx,hself,hl.self.2]
    rcases eq_or_ne i h with rfl | hne
    · simp
    · rw [if_neg hne,if_neg hne,if_neg]
      omega
  unfold Vm.busy
  rw [halloc,← hpoint]
  rcases eq_or_ne i h with rfl | hne
  · simp
  · rw [if_neg hne,destroyTables_entries]
    split
    · rename_i hp
      exact iff_of_false (by decide) fun h => h.2.2 hp
    · rename_i hp
      exact ⟨fun h => ⟨h,hne,hp⟩,fun h => h.1⟩

theorem Life.create (hs : vm.coremap.Sane) {junk : AddrSpace} (hjunk : ∀ l1, junk.lvone l1 = none)
    (hc : asCreate junk vm = (some as, vm')) :
    ∃ h, Life vm.coremap as h vm' ∧ Clean vm.coremap as h vm' := by
  rcases asCreate_cases hs junk with hnone | ⟨start,sp,hlt,hfree,hlv,hsome⟩
  · rw [hnone] at hc
    cases hc
  rw [hsome] at hc
  obtain ⟨has,rfl⟩ := Prod.mk.inj hc
  obtain rfl := Option.some_inj.mp has
  have halloc : ∀ i, ((vm.coremap.takeRun start 1).entries i).allocated =
      if i = start then 1 else (vm.coremap.entries i).allocated := fun i => by
    rw [Coremap.takeRun_allocated]
    exact if_congr (by omega) rfl rfl
  have htab : ∀ l, ((vm.setCoremap (vm.coremap.takeRun start 1)).setSpace (vm.coremap.kvaddr start) sp).tableAt
      (vm.coremap.kvaddr start) l = none := fun l => by
    simp [Vm.tableAt,Vm.setSpace,hlv,hjunk]
  refine ⟨start,⟨(Coremap.sameFrames_takeRun _ _ _).sane hs,?_,⟨fun ht => ?_,fun ht => ?_⟩,⟨hlt,rfl⟩,
    ?_,⟨?_,?_⟩,fun h0 => ?_,fun hp => ?_⟩,⟨htab,fun {i} hb => ?_⟩⟩
  · simp [Vm.setSpace]
  · cases (htab _).symm.trans ht
  · cases (htab _).symm.trans ht
  · rw [hfree]
    decide
  · exact (halloc start).trans (if_pos rfl)
  · exact (Coremap.takeRun_continuous _ _ _ _).trans (if_pos rfl)
  · refine (halloc _).trans ?_
    split
    · rfl
    · exact h0
  · rw [Vm.pageAt_of_none (htab _)] at hp
    cases hp
  · have hb := (halloc i).symm.trans hb
    split at hb
    · exact .inr ‹_›
    · exact .inl hb

end Life

theorem address_space_gives_back_iff {s s' s'' : Sys} (hs : s.vm.coremap.Sane) {junk : AddrSpace}
    (hjunk : ∀ l1, junk.lvone l1 = none) {as : Nat} {vm : Vm}
    (hcreate : asCreate junk s.vm = (some as, vm)) {ops : List VmOp} (hops : ∀ op ∈ ops, op.ofSpace as)
    (hrun : Run.exec vmStep ⟨vm, Function.update s.live as (some .space)⟩ ops = some s')
    (hdestroy : vmStep s' (.asDestroy as) = some s'') :
    (∀ i, s.vm.busy i → s''.vm.busy i) ∧
    ((∀ i, s''.vm.busy i ↔ s.vm.busy i) ↔ Run.Along vmStep (fun s op => takes s op = false)
      ⟨vm, Function.update s.live as (some .space)⟩ ops) := by
  obtain ⟨h,hlife,hclean⟩ := Life.create hs hjunk hcreate
  obtain ⟨hl,-,hend⟩ := Life.run (s := ⟨vm,_⟩) hlife hops hrun
  simp only [vmStep,Option.map_eq_some_iff] at hdestroy
  obtain ⟨sp,hsp,rfl⟩ := hdestroy
  have hkeep : ∀ i, s.vm.busy i → (asDestroy s'.vm as sp).busy i := by
    intro i hi
    refine (hl.destroy hsp i).mpr ⟨hl.kept hi,fun heq => hl.new (heq ▸ hi),?_⟩
    rintro ⟨l,-,j,-,hp⟩
    exact (hl.pages hp).2.1 hi
  refine ⟨hkeep,?_⟩
  rcases hend hclean with ⟨halong,hc⟩ | ⟨halong,k,hb,h0,hne,hp⟩
  · refine iff_of_true (fun i => ⟨fun hi => ?_,hkeep i⟩) halong
    obtain ⟨hb,hne,-⟩ := (hl.destroy hsp i).mp hi
    exact (hc.frames hb).resolve_right hne
  · refine iff_of_false (fun hall => h0 ((hall k).mp ((hl.destroy hsp k).mpr ⟨hb,hne,?_⟩))) halong
    rintro ⟨l,-,j,-,hptr⟩
    exact hp l j hptr

def freshBoot : Sys := Sys.boot ⟨0x10000, 0x19000⟩ (fun _ => zeroEntry) tlbInvalid

def lifetime (ops : List VmOp) : Option Sys :=
  (Run.exec vmStep ⟨(asCreate zeroSpace freshBoot.vm).2,
    Function.update freshBoot.live 0x80011000 (some .space)⟩ ops).bind (vmStep · (.asDestroy 0x80011000))

theorem freshBoot_create : (asCreate zeroSpace freshBoot.vm).1 = some 0x80011000 := by decide +kernel

theorem address_space_gives_back_untouched :
    ∃ s, lifetime [.asDefineRegion 0x80011000 0x400000 0x1000 0, .asDefineStack 0x80011000,
        .sysSbrk 0x80011000 4096, .vmFault (some 0x80011000) .read 0x1000 0] = some s ∧
      ∀ i, s.vm.busy i ↔ freshBoot.vm.busy i := by
  have hsome : (lifetime [.asDefineRegion 0x80011000 0x400000 0x1000 0,.asDefineStack 0x80011000,
      .sysSbrk 0x80011000 4096,.vmFault (some 0x80011000) .read 0x1000 0]).isSome = true := by
    decide +kernel
  obtain ⟨s,hs⟩ := Option.isSome_iff_exists.mp hsome
  obtain ⟨s',hrun,hdestroy⟩ := Option.bind_eq_some_iff.mp hs
  refine ⟨s,hs,(address_space_gives_back_iff (vmBootstrap_sane ⟨by decide,by decide,by decide,
    by decide⟩ _) (fun _ => rfl) (Prod.ext freshBoot_create rfl) (by simp [VmOp.ofSpace]) hrun
    hdestroy).2.mpr ?_⟩
  refine Run.along_mono (fun s op h => ?_) (Run.along_of_check (p := fun s op => !takes s op)
    (by decide +kernel))
  simpa using h

theorem second_level_table_kept :
    ∃ s, lifetime [.asDefineStack 0x80011000, .vmFault (some 0x80011000) .write 0x7ffff000 0] = some s ∧
      ¬ ∀ i, s.vm.busy i ↔ freshBoot.vm.busy i := by
  have hview : (lifetime [.asDefineStack 0x80011000,
      .vmFault (some 0x80011000) .write 0x7ffff000 0]).map (fun s =>
        ((s.vm.coremap.entries 1).allocated, (s.vm.coremap.entries 2).allocated)) = some (0, 1) := by
    decide +kernel
  obtain ⟨s,hs,hentries⟩ := Option.map_eq_some_iff.mp hview
  refine ⟨s,hs,fun hall => ?_⟩
  have htwo : freshBoot.vm.busy 2 := (hall 2).mp (Prod.mk.inj hentries).2
  cases htwo

end OS161
