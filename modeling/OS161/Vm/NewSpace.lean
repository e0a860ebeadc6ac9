import OS161.Vm.Sbrk

namespace OS161

open Function

structure EmptySpace (vm : Vm) (as : Nat) (sp : AddrSpace) : Prop where
  tables : ∀ l1 < level1Size, sp.lvone l1 = none
  untranslated : ∀ fa < usertop, pageEntryOf vm sp (pageFrame fa) = none
  heap : sp.heapStart = sp.heapEnd
  destroy : ∀ i, i ≠ kpageIndex vm.coremap as →
    (asDestroy vm as sp).coremap.entries i = vm.coremap.entries i

section
variable {vm vm' : Vm} {junk sp : AddrSpace} {as : Nat}

theorem destroyTables_none (vm : Vm) (hlv : ∀ l1 < level1Size, sp.lvone l1 = none) :
    destroyTables vm sp = vm := by
  have hstep : ∀ l1s : List Nat, (∀ l1 ∈ l1s, sp.lvone l1 = none) →
      l1s.foldl (destroyAt sp) vm = vm := by
    intro l1s h
    induction l1s with
    | nil => rfl
    | cons l1 l1s ih =>
      rw [List.forall_mem_cons] at h
      rw [List.foldl_cons,destroyAt,h.1]
      exact ih h.2
  exact hstep _ fun l1 hl => hlv l1 (List.mem_range.mp hl)

theorem freeKpages_entry {p : Phys} {a i : Nat} (hi : i ≠ kpageIndex p.coremap a)
    (hcont : (p.coremap.entries (kpageIndex p.coremap a)).continuous = 1) :
    (freeKpages a p).coremap.entries i = p.coremap.entries i := by
  simp only [freeKpages,hcont,Coremap.setContinuous,Coremap.clearRun,Coremap.entries_setEntry,
    update_of_ne hi]
  exact if_neg (by omega)

theorem as_create_empty_iff (hs : vm.coremap.Sane) (hcreate : asCreate junk vm = (some as, vm'))
    (hsp : vm'.spaces as = some sp) : EmptySpace vm' as sp ↔
      (∀ l1 < level1Size, junk.lvone l1 = none) ∧ junk.heapEnd = 0 := by
  have hfields : sp.lvone = junk.lvone ∧ sp.heapStart = 0 ∧ sp.heapEnd = junk.heapEnd := by
    rw [spaces_asCreate hcreate,update_self,Option.some_inj] at hsp
    rw [← hsp]
    exact ⟨rfl,rfl,rfl⟩
  obtain ⟨hlv,hstart,hend⟩ := hfields
  constructor
  · intro h
    exact ⟨fun l1 hl1 => hlv ▸ h.tables l1 hl1,by rw [← hend,← h.heap,hstart]⟩
  · rintro ⟨hnone,hzero⟩
    rw [← hlv] at hnone
    refine ⟨hnone,fun fa hfa => ?_,by rw [hstart,hend,hzero],fun i hi => ?_⟩
    · unfold pageEntryOf
      rw [hnone _ (l1Index_lt hfa)]
    · have hcont : (vm'.coremap.entries (kpageIndex vm'.coremap as)).continuous = 1 := by
        rcases asCreate_cases hs junk with hfull | ⟨start,sp',hlt,-,-,hgot⟩
        · rw [hfull] at hcreate
          cases hcreate
        · rw [hgot] at hcreate
          obtain ⟨has,rfl⟩ := Prod.mk.inj hcreate
          have hframes := vm.coremap.sameFrames_takeRun start 1
          have hidx : kpageIndex (vm.coremap.takeRun start 1) as = start := by
            rw [← Option.some_inj.mp has,← hframes.kvaddr]
            exact Coremap.kpageIndex_kvaddr (hframes.sane hs) (hframes.count ▸ hlt)
          show ((vm.coremap.takeRun start 1).entries
            (kpageIndex (vm.coremap.takeRun start 1) as)).continuous = 1
          rw [hidx,Coremap.takeRun_continuous,if_pos rfl]
          rfl
      unfold asDestroy
      rw [destroyTables_none vm' hnone]
      exact freeKpages_entry hi hcont

end

theorem as_create_empty_zeroed :
    ∃ as vm' sp, asCreate zeroSpace (Sys.boot smallRam zeroRam tlbInvalid).vm = (some as, vm') ∧
      vm'.spaces as = some sp ∧ EmptySpace vm' as sp := by
  have hsome : (asCreate zeroSpace (Sys.boot smallRam zeroRam tlbInvalid).vm).1 =
      some 0x80011000 := by decide
  have hcreate : asCreate zeroSpace (Sys.boot smallRam zeroRam tlbInvalid).vm =
      (some 0x80011000, (asCreate zeroSpace (Sys.boot smallRam zeroRam tlbInvalid).vm).2) :=
    Prod.ext hsome rfl
  have hsp := (congrFun (spaces_asCreate hcreate) 0x80011000).trans (update_self _ _ _)
  have hsane : (Sys.boot smallRam zeroRam tlbInvalid).vm.coremap.Sane :=
    vmBootstrap_sane smallRam_accepted zeroRam
  have hempty := as_create_empty_iff hsane hcreate hsp
  exact ⟨_,_,_,hcreate,hsp,hempty.mpr ⟨fun _ _ => rfl,rfl⟩⟩

def oneLife : Option (AddrSpace × Sys) := do
  let s ← Run.exec vmStep (Sys.boot smallRam zeroRam tlbInvalid)
    [.asCreate zeroSpace, .asDefineRegion 0x80011000 0x400000 0x1000 0,
      .asDefineStack 0x80011000, .vmFault (some 0x80011000) .write 0x7ffff000 0]
  let sp ← s.vm.spaces 0x80011000
  let s ← vmStep s (.asDestroy 0x80011000)
  some (sp, s)

theorem as_create_keeps_old_directory :
    ∃ old s vm' sp, oneLife = some (old, s) ∧ asCreate old s.vm = (some 0x80011000, vm') ∧
      vm'.spaces 0x80011000 = some sp ∧ sp.lvone 511 ≠ none ∧ sp.heapStart ≠ sp.heapEnd ∧
      ¬ EmptySpace vm' 0x80011000 sp := by
  have hview : oneLife.map (fun (old, s) => ((asCreate old s.vm).1, (old.lvone 511).isSome,
      old.heapEnd)) = some (some 0x80011000, true, 0x401000) := by decide +kernel
  obtain ⟨⟨old,s⟩,hlife,heq⟩ := Option.map_eq_some_iff.mp hview
  simp only [Prod.mk.injEq] at heq
  obtain ⟨has,htable,hend⟩ := heq
  have hcreate : asCreate old s.vm = (some 0x80011000, (asCreate old s.vm).2) := Prod.ext has rfl
  have hsp := (congrFun (spaces_asCreate hcreate) 0x80011000).trans (update_self _ _ _)
  have hne : old.lvone 511 ≠ none := fun h => by
    rw [h] at htable
    cases htable
  refine ⟨old,s,_,_,hlife,hcreate,hsp,hne,?_,fun h => hne (h.tables 511 (by decide))⟩
  dsimp only
  rw [hend]
  decide

namespace AddrSpace

def vbase (sp : AddrSpace) (counter : Nat) : Nat := if counter = 0 then sp.vbase1 else sp.vbase2

def npages (sp : AddrSpace) (counter : Nat) : Nat := if counter = 0 then sp.npages1 else sp.npages2

def regionEnd (sp : AddrSpace) (counter : Nat) : Nat :=
  sp.vbase counter + sp.npages counter * pageSize

end AddrSpace

structure Covers (sp : AddrSpace) (vaddr sz counter : Nat) : Prop where
  aligned : sp.vbase counter % pageSize = 0
  covered : ∀ x, vaddr ≤ x → x < vaddr + sz → sp.vbase counter ≤ x ∧ x < sp.regionEnd counter
  heapAligned : sp.heapStart % pageSize = 0
  above : ∀ c, c = 0 ∨ c = 1 → sp.regionEnd c ≤ sp.heapStart
  heapEmpty : sp.heapEnd = sp.heapStart

def pageEnd (x : Nat) : Nat := (x + 4095) / 4096 * 4096

def regionSize (vaddr sz : Nat) : Nat := pageFrame (u32 (u32 (sz + vaddr % 4096) + 4095))

section Region
variable {sp sp' : AddrSpace} {vaddr sz counter : Nat} {e : Option Errno}

structure Defined (sp : AddrSpace) (vaddr sz counter : Nat) (sp' : AddrSpace) : Prop where
  vbase : sp'.vbase counter = pageFrame vaddr
  regionEnd : sp'.regionEnd counter = pageFrame vaddr + regionSize vaddr sz
  other : sp'.regionEnd (1 - counter) = sp.regionEnd (1 - counter)
  heap : (sp.heapStart < u32 (pageFrame vaddr + regionSize vaddr sz) ∧
      sp'.heapStart = u32 (pageFrame vaddr + regionSize vaddr sz) ∧ sp'.heapEnd = sp'.heapStart) ∨
    (u32 (pageFrame vaddr + regionSize vaddr sz) ≤ sp.heapStart ∧ sp'.heapStart = sp.heapStart ∧
      sp'.heapEnd = sp.heapEnd)

theorem Defined.of_base {base : AddrSpace} (hvbase : base.vbase counter = pageFrame vaddr)
    (hend : base.regionEnd counter = pageFrame vaddr + regionSize vaddr sz)
    (hother : base.regionEnd (1 - counter) = sp.regionEnd (1 - counter))
    (hstart : base.heapStart = sp.heapStart) (hbrk : base.heapEnd = sp.heapEnd) :
    Defined sp vaddr sz counter
      (if base.heapStart < u32 (pageFrame vaddr + regionSize vaddr sz) then
        { base with
          heapStart := u32 (pageFrame vaddr + regionSize vaddr sz)
          heapEnd := u32 (pageFrame vaddr + regionSize vaddr sz) }
      else base) := by
  split
  · exact ⟨hvbase,hend,hother,.inl ⟨hstart ▸ ‹_›,rfl,rfl⟩⟩
  · exact ⟨hvbase,hend,hother,.inr ⟨hstart ▸ Nat.le_of_not_lt ‹_›,hstart,hbrk⟩⟩

theorem asDefineRegion_fresh (hcounter : counter = 0 ∨ counter = 1) (hslot : sp.vbase counter = 0)
    (hcall : asDefineRegion sp vaddr sz counter = (e, sp')) : Defined sp vaddr sz counter sp' := by
  have hpages : regionSize vaddr sz / 4096 * pageSize = regionSize vaddr sz := by
    unfold regionSize pageFrame pageSize
    omega
  unfold asDefineRegion at hcall
  dsimp only at hcall
  rw [← regionSize] at hcall
  rcases hcounter with rfl | rfl
  · have hfresh : sp.vbase1 = 0 := hslot
    rw [if_pos ⟨rfl,hfresh⟩] at hcall
    obtain ⟨-,rfl⟩ := Prod.mk.inj hcall
    refine @Defined.of_base sp vaddr sz 0 { sp with
      vbase1 := pageFrame vaddr, npages1 := regionSize vaddr sz / 4096 } rfl ?_ rfl rfl rfl
    simp [AddrSpace.regionEnd,AddrSpace.vbase,AddrSpace.npages,hpages]
  · have hfresh : sp.vbase2 = 0 := hslot
    rw [if_neg (by omega),if_pos ⟨rfl,hfresh⟩] at hcall
    obtain ⟨-,rfl⟩ := Prod.mk.inj hcall
    refine @Defined.of_base sp vaddr sz 1 { sp with
      vbase2 := pageFrame vaddr, npages2 := regionSize vaddr sz / 4096 } rfl ?_ rfl rfl rfl
    simp [AddrSpace.regionEnd,AddrSpace.vbase,AddrSpace.npages,hpages]

theorem region_exact (h : vaddr + sz ≤ 2 ^ 32 - 4096) :
    pageFrame vaddr + regionSize vaddr sz = pageEnd (vaddr + sz) ∧
      u32 (pageFrame vaddr + regionSize vaddr sz) = pageEnd (vaddr + sz) := by
  have hwrap : u32 (u32 (sz + vaddr % 4096) + 4095) = sz + vaddr % 4096 + 4095 := by
    unfold u32
    omega
  have hsize : regionSize vaddr sz = pageFrame (sz + vaddr % 4096 + 4095) :=
    congrArg pageFrame hwrap
  have hexact : pageFrame vaddr + regionSize vaddr sz = pageEnd (vaddr + sz) := by
    rw [hsize]
    unfold pageFrame pageEnd
    omega
  refine ⟨hexact,?_⟩
  have hlt : pageEnd (vaddr + sz) < 2 ^ 32 := by
    unfold pageEnd
    omega
  rw [← Int.natCast_add,hexact,u32_of_nat hlt]

theorem Defined.room (hd : Defined sp vaddr sz counter sp') (hheap : sp.heapStart < 2 ^ 32)
    (hcounter : counter = 0 ∨ counter = 1) (h : Covers sp' vaddr sz counter) :
    vaddr + sz ≤ 2 ^ 32 - 4096 := by
  have hword : sp'.heapStart < 2 ^ 32 := by
    rcases hd.heap with ⟨-,hs,-⟩ | ⟨-,hs,-⟩
    · exact hs ▸ u32_lt _
    · exact hs ▸ hheap
  have hend := h.above counter hcounter
  rw [hd.regionEnd] at hend
  have hfits : vaddr + sz ≤ pageFrame vaddr + regionSize vaddr sz := by
    rcases Nat.eq_zero_or_pos sz with rfl | hpos
    · unfold regionSize pageFrame u32
      omega
    · have := (h.covered (vaddr + sz - 1) (by omega) (by omega)).2
      rw [hd.regionEnd] at this
      omega
  have hmul : (pageFrame vaddr + regionSize vaddr sz) % 4096 = 0 := by
    unfold regionSize pageFrame
    omega
  omega

theorem Defined.covers (hd : Defined sp vaddr sz counter sp') (hcounter : counter = 0 ∨ counter = 1)
    (hle : vaddr + sz ≤ 2 ^ 32 - 4096)
    (hother : sp.regionEnd (1 - counter) ≤ max sp.heapStart (pageEnd (vaddr + sz)))
    (hheap : sp.heapStart < pageEnd (vaddr + sz) ∨
      sp.heapEnd = sp.heapStart ∧ sp.heapStart % pageSize = 0) : Covers sp' vaddr sz counter := by
  obtain ⟨hexact,hu⟩ := region_exact hle
  have hround : pageEnd (vaddr + sz) % pageSize = 0 := Nat.mul_mod_left _ _
  have hpast : vaddr + sz ≤ pageEnd (vaddr + sz) := by
    unfold pageEnd
    omega
  have hlow : pageFrame vaddr ≤ vaddr := Nat.div_mul_le_self vaddr 4096
  have hboth : ∀ c, c = 0 ∨ c = 1 → c = counter ∨ c = 1 - counter := by omega
  have hheaps := hd.heap
  rw [hu] at hheaps
  refine ⟨?_,fun x hx hx' => ?_,?_,fun c hc => ?_,?_⟩
  · rw [hd.vbase]
    exact Nat.mul_mod_left _ _
  · rw [hd.vbase,hd.regionEnd,hexact]
    omega
  · rcases hheaps with ⟨-,hs,-⟩ | ⟨hge,hs,-⟩
    · rw [hs]
      exact hround
    · rw [hs]
      rcases hheap with hlt | ⟨-,ha⟩
      · omega
      · exact ha
  · rcases hboth c hc with rfl | rfl
    · rw [hd.regionEnd,hexact]
      omega
    · rw [hd.other]
      omega
  · rcases hheaps with ⟨-,-,he⟩ | ⟨hge,hs,he⟩
    · exact he
    · rw [hs,he]
      rcases hheap with hlt | ⟨heq,-⟩
      · omega
      · exact heq

theorem as_define_region_covers_iff (hheap : sp.heapStart < 2 ^ 32)
    (hcounter : counter = 0 ∨ counter = 1) (hslot : sp.vbase counter = 0)
    (hcall : asDefineRegion sp vaddr sz counter = (none, sp')) :
    Covers sp' vaddr sz counter ↔ vaddr + sz ≤ 2 ^ 32 - pageSize ∧
      sp.regionEnd (1 - counter) ≤ max sp.heapStart (pageEnd (vaddr + sz)) ∧
      (sp.heapStart < pageEnd (vaddr + sz) ∨
        sp.heapEnd = sp.heapStart ∧ sp.heapStart % pageSize = 0) := by
  have hd := asDefineRegion_fresh hcounter hslot hcall
  have hpage : pageSize = 4096 := rfl
  constructor
  · intro h
    have hle := hd.room hheap hcounter h
    obtain ⟨hexact,hu⟩ := region_exact hle
    have hend := h.above counter hcounter
    have habove := h.above (1 - counter) (by omega)
    rw [hd.regionEnd,hexact] at hend
    rw [hd.other] at habove
    refine ⟨hpage ▸ hle,?_,?_⟩
    · rcases hd.heap with ⟨hlt,hs,-⟩ | ⟨-,hs,-⟩
      · rw [hu] at hs
        omega
      · omega
    · rcases hd.heap with ⟨hlt,-,-⟩ | ⟨-,hs,hb⟩
      · exact .inl (hu ▸ hlt)
      · exact .inr ⟨by rw [← hb,h.heapEmpty,hs],hs ▸ h.heapAligned⟩
  · rintro ⟨hle,hother,hheap'⟩
    exact hd.covers hcounter (hpage ▸ hle) hother hheap'

end Region

theorem as_define_region_covers_two_segments :
    ∃ sp₁ sp₂, asDefineRegion zeroSpace 0x400010 0x1ff0 0 = (none, sp₁) ∧
      asDefineRegion sp₁ 0x10000000 1 1 = (none, sp₂) ∧
      Covers sp₁ 0x400010 0x1ff0 0 ∧ Covers sp₂ 0x10000000 1 1 ∧ sp₂.heapStart = 0x10001000 := by
  have hone := @as_define_region_covers_iff zeroSpace _ 0x400010 0x1ff0 0 (by decide) (.inl rfl) rfl rfl
  have htwo := @as_define_region_covers_iff (asDefineRegion zeroSpace 0x400010 0x1ff0 0).2 _
    0x10000000 1 1 (by decide) (.inr rfl) rfl rfl
  exact ⟨_,_,rfl,rfl,hone.mpr ⟨by decide,by decide,.inl (by decide)⟩,
    htwo.mpr ⟨by decide,by decide,.inl (by decide)⟩,by decide⟩

theorem as_define_region_wraps :
    ∃ sp, asDefineRegion zeroSpace 0x400010 0xfffff000 0 = (none, sp) ∧ sp.npages1 = 0 ∧
      sp.heapStart = 0x400000 ∧ ¬ Covers sp 0x400010 0xfffff000 0 := by
  refine ⟨_,rfl,by decide,by decide,fun h => ?_⟩
  have hout := (h.covered 0x500000 (by decide) (by decide)).2
  exact absurd hout (by decide)

end OS161
