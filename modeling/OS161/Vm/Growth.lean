import OS161.Vm.Ownership

namespace OS161

open Function Vm

namespace Vm

def busy (vm : Vm) (i : Nat) : Prop := (vm.coremap.entries i).allocated = 1

def pageAt (vm : Vm) (as l1 l2 : Nat) : PageEntry :=
  match vm.tableAt as l1 with
  | none => ⟨none, 0, false⟩
  | some t => vm.tables t l2

theorem pageAt_of_table {vm : Vm} {as l1 l2 t : Nat} (h : vm.tableAt as l1 = some t) :
    vm.pageAt as l1 l2 = vm.tables t l2 := by
  simp only [pageAt,h]

theorem pageAt_of_none {vm : Vm} {as l1 l2 : Nat} (h : vm.tableAt as l1 = none) :
    vm.pageAt as l1 l2 = ⟨none, 0, false⟩ := by
  simp only [pageAt,h]

end Vm

structure Placed (vm : Vm) (as : Nat) : Prop where
  frame : ∀ {l t}, vm.tableAt as l = some t → ∃ k < vm.coremap.count,
    t = vm.coremap.kvaddr k ∧ vm.busy k
  inj : ∀ {l l' t}, vm.tableAt as l = some t → vm.tableAt as l' = some t → l = l'

structure Extends (as : Nat) (new : Nat → Prop) (vm vm' : Vm) : Prop where
  frames : vm.coremap.SameFrames vm'.coremap
  others : ∀ {as'}, as' ≠ as → vm'.spaces as' = vm.spaces as'
  alive : vm'.spaces as ≠ none
  tlb : vm'.tlb = vm.tlb
  kept : ∀ {i}, vm.busy i → vm'.busy i ∧
    (¬ new i → (vm'.coremap.entries i).continuous = (vm.coremap.entries i).continuous)
  gained : ∀ {l j i}, (vm'.pageAt as l j).coremapPtr = some i →
    (vm.pageAt as l j).coremapPtr = some i ∨ new i
  valid : ∀ {l j}, (vm.pageAt as l j).valid = true → (vm'.pageAt as l j).valid = true
  placed : Placed vm' as

section Extends
variable {vm vm' vm'' : Vm} {as : Nat} {new : Nat → Prop}

theorem Extends.trans (h : Extends as new vm vm') (h' : Extends as new vm' vm'') :
    Extends as new vm vm'' where
  frames := h.frames.trans h'.frames
  others hne := (h'.others hne).trans (h.others hne)
  alive := h'.alive
  tlb := h'.tlb.trans h.tlb
  kept hb :=
    ⟨(h'.kept (h.kept hb).1).1,fun hn => ((h'.kept (h.kept hb).1).2 hn).trans ((h.kept hb).2 hn)⟩
  gained hp := (h'.gained hp).elim h.gained .inr
  valid hv := h'.valid (h.valid hv)
  placed := h'.placed

section
variable (hp : Placed vm as)
include hp

theorem Placed.extends_coremap {c : Coremap} (halive : vm.spaces as ≠ none)
    (hframes : vm.coremap.SameFrames c)
    (hkept : ∀ {i}, vm.busy i → (c.entries i).allocated = 1 ∧
      (c.entries i).continuous = (vm.coremap.entries i).continuous) :
    Extends as new vm (vm.setCoremap c) where
  frames := hframes
  others _ := rfl
  alive := halive
  tlb := rfl
  kept hb := ⟨(hkept hb).1,fun _ => (hkept hb).2⟩
  gained := .inl
  valid hv := hv
  placed := by
    refine ⟨fun {l t} ht => ?_,hp.inj⟩
    obtain ⟨k,hk,hkt,hb⟩ := hp.frame ht
    have hcount : (vm.setCoremap c).coremap.count = vm.coremap.count := hframes.count
    have hkvaddr : (vm.setCoremap c).coremap.kvaddr = vm.coremap.kvaddr := hframes.kvaddr
    rw [hcount,hkvaddr]
    exact ⟨k,hk,hkt,(hkept hb).1⟩

theorem Placed.extends_mark (halive : vm.spaces as ≠ none) (i : Nat) :
    Extends as new vm (vm.mark i) := by
  refine hp.extends_coremap halive (vm.sameFrames_mark i) fun {j} hj => ?_
  rw [Coremap.entries_setEntry,update_apply]
  split
  · rename_i heq
    exact ⟨rfl,by rw [heq]⟩
  · exact ⟨hj,rfl⟩

theorem Placed.extends_run (halive : vm.spaces as ≠ none) {start n : Nat} (hn : 0 < n)
    (hfree : ∀ k < n, (vm.coremap.entries (start + k)).allocated = 0) :
    Extends as new vm (vm.setCoremap (vm.coremap.takeRun start n)) := by
  refine hp.extends_coremap halive (Coremap.sameFrames_takeRun _ _ _) fun {j} hj => ?_
  have hout : ¬ (start ≤ j ∧ j < start + n) := fun hin => by
    have := hfree (j - start) (by omega)
    rw [show start + (j - start) = j by omega,hj] at this
    cases this
  rw [Coremap.takeRun_allocated,Coremap.takeRun_continuous,if_neg hout,if_neg (by omega)]
  exact ⟨hj,rfl⟩

theorem Placed.extends_table {sp : AddrSpace} {l1 k : Nat} (hsp : vm.spaces as = some sp)
    (hl1 : l1 < level1Size) (hnone : vm.tableAt as l1 = none) (hk : k < vm.coremap.count)
    (hbusy : vm.busy k) (hnew : ∀ {l t}, vm.tableAt as l = some t → t ≠ vm.coremap.kvaddr k) :
    Extends as new vm (linkTable vm as sp l1 (vm.coremap.kvaddr k)) := by
  have htab := fun l => tableAt_linkTable (t := vm.coremap.kvaddr k) hsp hl1 as l
  have hpage : ∀ l j, (linkTable vm as sp l1 (vm.coremap.kvaddr k)).pageAt as l j =
      vm.pageAt as l j := by
    intro l j
    rcases eq_or_ne l l1 with rfl | hne
    · rw [pageAt_of_table ((htab l).trans (if_pos ⟨rfl,rfl⟩)),pageAt_of_none hnone]
      simp [linkTable,Vm.setSpace,lv2Empty]
    · have hl := (htab l).trans (if_neg fun h => hne h.2)
      cases ht : vm.tableAt as l with
      | none => rw [pageAt_of_none (hl.trans ht),pageAt_of_none ht]
      | some t =>
        rw [pageAt_of_table (hl.trans ht),pageAt_of_table ht]
        simp [linkTable,Vm.setSpace,update_of_ne (hnew ht)]
  have hcoremap : (linkTable vm as sp l1 (vm.coremap.kvaddr k)).coremap = vm.coremap := rfl
  refine ⟨.refl _,fun hne => ?_,?_,rfl,fun hb => ⟨hb,fun _ => rfl⟩,
    fun h => .inl (hpage _ _ ▸ h),fun h => (hpage _ _).symm ▸ h,
    ⟨fun {l t} ht => ?_,fun {l l' t} ht ht' => ?_⟩⟩
  · simp [linkTable,Vm.setSpace,update_of_ne hne]
  · simp [linkTable,Vm.setSpace]
  · rw [htab l] at ht
    rw [hcoremap]
    split at ht
    · exact ⟨k,hk,(Option.some_inj.mp ht).symm,hbusy⟩
    · exact hp.frame ht
  · rw [htab] at ht ht'
    split at ht
    · split at ht'
      · omega
      · exact absurd (Option.some_inj.mp ht).symm (hnew ht')
    · split at ht'
      · exact absurd (Option.some_inj.mp ht').symm (hnew ht)
      · exact hp.inj ht ht'

theorem pageAt_linkPage {l1 l2 i t : Nat} (ht : vm.tableAt as l1 = some t) (l j : Nat) :
    (linkPage vm as t l2 i).pageAt as l j =
      if l = l1 ∧ j = l2 then ⟨some i, vm.coremap.frameAddr i % 2 ^ 20, true⟩ else vm.pageAt as l j := by
  have htab : ∀ l, (linkPage vm as t l2 i).tableAt as l = vm.tableAt as l := fun _ => rfl
  rcases eq_or_ne l l1 with rfl | hl
  · rw [pageAt_of_table ((htab l).trans ht),pageAt_of_table ht]
    rcases eq_or_ne j l2 with rfl | hj
    · simp [linkPage,Vm.setPage,Vm.setEntry,Vm.setCoremap]
    · simp [linkPage,Vm.setPage,Vm.setEntry,Vm.setCoremap,hj]
  · rw [if_neg fun h => hl h.1]
    cases ht' : vm.tableAt as l with
    | none => rw [pageAt_of_none ((htab l).trans ht'),pageAt_of_none ht']
    | some t' =>
      have hne : t' ≠ t := fun heq => hl (hp.inj ht' (heq ▸ ht))
      rw [pageAt_of_table ((htab l).trans ht'),pageAt_of_table ht']
      simp [linkPage,Vm.setPage,Vm.setEntry,Vm.setCoremap,update_of_ne hne]

theorem Placed.extends_page (halive : vm.spaces as ≠ none) {l1 l2 i t : Nat}
    (ht : vm.tableAt as l1 = some t) (hnew : new i) : Extends as new vm (linkPage vm as t l2 i) := by
  have hframes : vm.coremap.SameFrames (linkPage vm as t l2 i).coremap := ⟨rfl,rfl,rfl⟩
  have hkept : ∀ {k}, vm.busy k → (linkPage vm as t l2 i).busy k ∧ (¬ new k →
      ((linkPage vm as t l2 i).coremap.entries k).continuous = (vm.coremap.entries k).continuous) := by
    intro k hk
    simp only [Vm.busy,linkPage,Vm.setEntry,Vm.setCoremap,Vm.setPage,Vm.coremap,
      Coremap.entries_setEntry,update_apply]
    split
    · rename_i heq
      subst heq
      exact ⟨hk,fun hn => absurd hnew hn⟩
    · exact ⟨hk,fun _ => rfl⟩
  refine ⟨hframes,fun _ => rfl,halive,rfl,hkept,fun {l j k} h => ?_,fun {l j} h => ?_,
    ⟨fun {l t'} ht' => ?_,hp.inj⟩⟩
  · rw [pageAt_linkPage hp ht] at h
    split at h
    · cases h
      exact .inr hnew
    · exact .inl h
  · rw [pageAt_linkPage hp ht]
    split
    · rfl
    · exact h
  · obtain ⟨k,hk,hkt,hb⟩ := hp.frame ht'
    rw [hframes.count,hframes.kvaddr]
    exact ⟨k,hk,hkt,(hkept hb).1⟩

theorem Placed.extends_shrink (halive : vm.spaces as ≠ none) :
    Extends as new vm (shrinkStack vm as) := by
  obtain ⟨sp,hsp⟩ := Option.ne_none_iff_exists'.mp halive
  have heq : shrinkStack vm as = vm.setSpace as { sp with eoStack := offT (sp.eoStack - 4096) } := by
    simp only [shrinkStack,hsp]
  have htab : ∀ l, (shrinkStack vm as).tableAt as l = vm.tableAt as l := by
    rw [heq]
    exact tableAt_congr (by simp [Vm.setSpace,hsp])
  have hpage : ∀ l j, (shrinkStack vm as).pageAt as l j = vm.pageAt as l j := fun l j => by
    unfold Vm.pageAt
    rw [htab,heq]
    rfl
  have hcoremap : (shrinkStack vm as).coremap = vm.coremap := by rw [heq]; rfl
  refine ⟨hcoremap ▸ .refl _,fun hne => ?_,?_,by rw [heq]; rfl,fun hb => ?_,
    fun h => .inl (hpage _ _ ▸ h),fun h => (hpage _ _).symm ▸ h,⟨fun ht => ?_,fun ht ht' => ?_⟩⟩
  · rw [heq]
    simp [Vm.setSpace,update_of_ne hne]
  · rw [heq]
    simp [Vm.setSpace]
  · unfold Vm.busy
    rw [hcoremap]
    exact ⟨hb,fun _ => rfl⟩
  · unfold Vm.busy
    rw [htab] at ht
    rw [hcoremap]
    exact hp.frame ht
  · rw [htab] at ht ht'
    exact hp.inj ht ht'

end

theorem pageAt_shrink (l j : Nat) : (shrinkStack vm as).pageAt as l j = vm.pageAt as l j := by
  unfold shrinkStack
  split
  · rfl
  · rename_i sp hsp
    have htab : (vm.setSpace as { sp with eoStack := offT (sp.eoStack - 4096) }).tableAt as l =
        vm.tableAt as l := tableAt_congr (by simp [Vm.setSpace,hsp]) l
    unfold Vm.pageAt
    rw [htab]
    rfl

end Extends

structure Took (as l1 l2 i : Nat) (vm : Vm) (ret : IncRet) (vm' : Vm) : Prop where
  bound : i < vm.coremap.count
  free : (vm.coremap.entries i).allocated = 0
  grows : Extends as (· = i) vm vm'
  taken : vm'.busy i
  outcome : (ret = .failed 4 ∧ ∀ l j, vm'.pageAt as l j = vm.pageAt as l j) ∨
    (ret = .mapped (vm.coremap.frameAddr i) ∧
      vm'.pageAt as l1 l2 = ⟨some i, vm.coremap.frameAddr i % 2 ^ 20, true⟩)
  spare : vm.tableAt as l1 = none → ∃ k, (vm.coremap.entries k).allocated = 0 ∧ vm'.busy k ∧
    (k = i → ret = .failed 4)

section Fault
variable {vm : Vm} {as fa : Nat} {sp : AddrSpace}

theorem Held.placed {s : Sys} {own : Nat → Option Owner} (hh : Held s own) (a : Nat) : Placed s.vm a where
  frame ht := by
    obtain ⟨h,n,hkv,hn,hle,-,hrun⟩ := hh.ledger.run (hh.mapped.table ht)
    exact ⟨h,by omega,hkv,(hh.ledger.bound ((hrun h).mpr (by omega))).2⟩
  inj ht ht' := (hh.mapped.inj ht ht').2

theorem kvaddr_inj {c : Coremap} (hs : c.Sane) {i k : Nat} (hi : i < c.count) (hk : k < c.count)
    (h : c.kvaddr i = c.kvaddr k) : i = k := by
  rw [← Coremap.kpageIndex_kvaddr hs hi,h,Coremap.kpageIndex_kvaddr hs hk]

theorem Placed.tableless {k : Nat} (hs : vm.coremap.Sane) (hp : Placed vm as)
    (hk : k < vm.coremap.count) (hfree : (vm.coremap.entries k).allocated = 0) {l t : Nat}
    (ht : vm.tableAt as l = some t) : t ≠ vm.coremap.kvaddr k := by
  obtain ⟨k',hk',hkt,hb⟩ := hp.frame ht
  intro heq
  rw [kvaddr_inj hs hk' hk (hkt.symm.trans heq)] at hb
  exact nomatch hb.symm.trans hfree

theorem Vm.mark_free {i k : Nat} (h : ((vm.mark i).coremap.entries k).allocated = 0) :
    k ≠ i ∧ (vm.coremap.entries k).allocated = 0 := by
  simp only [Vm.mark,Vm.setEntry,Vm.setCoremap,Vm.coremap,Coremap.entries_setEntry,
    update_apply] at h
  split at h
  · cases h
  · exact ⟨‹_›,h⟩

variable (hs : vm.coremap.Sane) (hp : Placed vm as) (hsp : vm.spaces as = some sp)
  (hl1 : l1Index fa < level1Size)

include hs hp hsp hl1 in
theorem Placed.newPage {i : Nat} (hi : i < vm.coremap.count)
    (hfree : (vm.coremap.entries i).allocated = 0) (hlv : sp.lvone (l1Index fa) = none)
    {start : Nat} (hle : start + 2 ≤ (vm.mark i).coremap.count)
    (hrun : ∀ k < 2, ((vm.mark i).coremap.entries (start + k)).allocated = 0) :
    Took as (l1Index fa) (l2Index fa) i vm (.mapped (vm.coremap.frameAddr i))
      (linkPage (linkTable ((vm.mark i).setCoremap ((vm.mark i).coremap.takeRun start 2)) as sp
        (l1Index fa) (vm.coremap.kvaddr start)) as (vm.coremap.kvaddr start) (l2Index fa) i) := by
  have halive : vm.spaces as ≠ none := by rw [hsp]; exact nofun
  have hmark : Extends as (· = i) vm (vm.mark i) := hp.extends_mark halive i
  have htake : Extends as (· = i) (vm.mark i)
      ((vm.mark i).setCoremap ((vm.mark i).coremap.takeRun start 2)) :=
    hmark.placed.extends_run halive Nat.two_pos hrun
  generalize hvm₂ : (vm.mark i).setCoremap ((vm.mark i).coremap.takeRun start 2) = vm₂ at htake ⊢
  have hsame := hmark.frames.trans htake.frames
  have hstart : start < vm₂.coremap.count := by
    rw [htake.frames.count]
    omega
  have hbusy : vm₂.busy start := by
    rw [← hvm₂]
    exact (Coremap.takeRun_allocated _ _ _ _).trans (if_pos ⟨Nat.le_refl _,by omega⟩)
  have hspaces : vm₂.spaces as = some sp := by rw [← hvm₂]; exact hsp
  have htabs : ∀ l, vm₂.tableAt as l = vm.tableAt as l := fun l => by rw [← hvm₂]; rfl
  have hnone : vm₂.tableAt as (l1Index fa) = none := (tableAt_of_space hspaces hl1).trans hlv
  have hstart0 := mark_free (hrun 0 Nat.two_pos)
  have hlink : Extends as (· = i) vm₂ (linkTable vm₂ as sp (l1Index fa) (vm₂.coremap.kvaddr start)) :=
    htake.placed.extends_table hspaces hl1 hnone hstart hbusy fun {l t} ht => by
      rw [hsame.kvaddr]
      exact hp.tableless hs (hmark.frames.count ▸ by omega) hstart0.2 ((htabs l).symm.trans ht)
  rw [hsame.kvaddr] at hlink
  have htab : (linkTable vm₂ as sp (l1Index fa) (vm.coremap.kvaddr start)).tableAt as (l1Index fa) =
      some (vm.coremap.kvaddr start) := (tableAt_linkTable hspaces hl1 _ _).trans (if_pos ⟨rfl,rfl⟩)
  have hpage : Extends as (· = i) _ (linkPage _ as _ (l2Index fa) i) :=
    hlink.placed.extends_page hlink.alive htab rfl
  have hall := (hmark.trans htake).trans hlink
  refine ⟨hi,hfree,hall.trans hpage,?_,.inr ⟨rfl,?_⟩,fun _ => ⟨start,hstart0.2,?_,?_⟩⟩
  · exact (hpage.kept (hlink.kept (htake.kept (vm.mark_allocated i)).1).1).1
  · rw [pageAt_linkPage hlink.placed htab,if_pos ⟨rfl,rfl⟩,hall.frames.frameAddr]
  · exact (hpage.kept (hlink.kept hbusy).1).1
  · exact fun heq => absurd heq hstart0.1

theorem Placed.oldPage (hp : Placed vm as) (hsp : vm.spaces as = some sp) {i t : Nat}
    (hi : i < vm.coremap.count) (hfree : (vm.coremap.entries i).allocated = 0)
    (ht : vm.tableAt as (l1Index fa) = some t) :
    Took as (l1Index fa) (l2Index fa) i vm (.mapped (vm.coremap.frameAddr i))
      (linkPage (vm.mark i) as t (l2Index fa) i) := by
  have halive : vm.spaces as ≠ none := by rw [hsp]; exact nofun
  have hmark : Extends as (· = i) vm (vm.mark i) := hp.extends_mark halive i
  have hpage : Extends as (· = i) (vm.mark i) (linkPage (vm.mark i) as t (l2Index fa) i) :=
    hmark.placed.extends_page halive ht rfl
  refine ⟨hi,hfree,hmark.trans hpage,(hpage.kept (vm.mark_allocated i)).1,.inr ⟨rfl,?_⟩,
    fun hnone => nomatch hnone.symm.trans ht⟩
  rw [pageAt_linkPage hmark.placed ht,if_pos ⟨rfl,rfl⟩,hmark.frames.frameAddr]

include hs hp hsp hl1 in
theorem incPage_took :
    (allocatePhysicalPage vm.phys = none ∧ incPage vm as sp fa = (.failed (-1), vm)) ∨
      (allocatePhysicalPage vm.phys).isSome ∧ ∃ i ret vm', incPage vm as sp fa = (ret, vm') ∧
        Took as (l1Index fa) (l2Index fa) i vm ret vm' := by
  have halive : vm.spaces as ≠ none := by simp [hsp]
  unfold incPage
  rcases allocatePhysicalPage_cases vm.phys with ⟨ha,-⟩ | ⟨i,hi,hfree,ha⟩
  · exact .inl ⟨ha,by rw [ha]⟩
  refine .inr ⟨by rw [ha]; rfl,i,?_⟩
  simp only [ha]
  generalize hm : ({ vm with phys := _ } : Vm) = vm₁
  obtain rfl : vm.mark i = vm₁ := hm
  cases hlv : sp.lvone (l1Index fa) with
  | some t =>
    have ht : vm.tableAt as (l1Index fa) = some t := (tableAt_of_space hsp hl1).trans hlv
    refine ⟨_,_,?_,hp.oldPage hsp hi hfree ht⟩
    simp only [lv2Table,hlv]
    rfl
  | none =>
    have hmark : Extends as (· = i) vm (vm.mark i) := hp.extends_mark halive i
    have hkm := kmallocPages_lv2pt (vm.mark i).phys
    rcases allocKpages_cases (hmark.frames.sane hs) (npages_two ▸ Nat.two_pos.ne') with
      hfull | ⟨start,hle,hrun,hgot⟩
    · refine ⟨.failed 4,vm.mark i,?_,hi,hfree,hmark,vm.mark_allocated i,
        .inl ⟨rfl,fun _ _ => rfl⟩,fun _ => ⟨i,hfree,vm.mark_allocated i,fun _ => rfl⟩⟩
      simp [lv2Table,hlv,hkm.trans hfull]
    · rw [npages_two] at hle hrun hgot
      have hpos : (vm.mark i).coremap.kvaddr start ≠ 0 := by
        rw [Coremap.kvaddr_eq (hmark.frames.sane hs) (Nat.lt_of_lt_of_le (by omega) hle)]
        unfold mipsKseg0
        omega
      refine ⟨_,_,?_,hp.newPage hs hsp hl1 hi hfree hlv hle hrun⟩
      rw [hmark.frames.kvaddr] at hgot hpos
      simp only [lv2Table,hlv,hkm.trans hgot,if_neg hpos]
      rfl

theorem Took.shrink {l1 l2 i : Nat} {ret : IncRet} {vm' : Vm} (h : Took as l1 l2 i vm ret vm') :
    Took as l1 l2 i vm ret (shrinkStack vm' as) := by
  have hshrink : Extends as (· = i) vm' (shrinkStack vm' as) := h.grows.placed.extends_shrink h.grows.alive
  refine ⟨h.bound,h.free,h.grows.trans hshrink,(hshrink.kept h.taken).1,?_,fun hnone => ?_⟩
  · simp only [pageAt_shrink]
    exact h.outcome
  · obtain ⟨k,hfree,hbusy,hk⟩ := h.spare hnone
    exact ⟨k,hfree,(hshrink.kept hbusy).1,hk⟩

def takesFrame (vm : Vm) (sp : AddrSpace) (fa : Nat) : Bool :=
  (pageEntryOf vm sp fa).isNone && position sp fa ≠ .nowhere && (allocatePhysicalPage vm.phys).isSome

include hs hp hsp hl1 in
theorem incStack_took :
    (allocatePhysicalPage vm.phys = none ∧ incStack vm as sp fa = (.failed (-1), vm)) ∨
      (allocatePhysicalPage vm.phys).isSome ∧ ∃ i ret vm', incStack vm as sp fa = (ret, vm') ∧
        Took as (l1Index fa) (l2Index fa) i vm ret vm' := by
  rcases incPage_took hs hp hsp hl1 with ⟨ha,hinc⟩ | ⟨ha,i,ret,vm',hinc,htook⟩
  · exact .inl ⟨ha,by rw [incStack,hinc]⟩
  · refine .inr ⟨ha,i,ret,?_⟩
    rw [incStack,hinc]
    cases ret with
    | failed code => exact ⟨vm',rfl,htook⟩
    | mapped paddr => exact ⟨_,rfl,htook.shrink⟩

include hs hp hsp hl1 in
theorem faultPaddr_took :
    (takesFrame vm sp fa = false ∧ ∃ ret, faultPaddr vm as sp fa = (ret, vm) ∧
      ∀ paddr, ret = .mapped paddr →
        (vm.pageAt as (l1Index fa) (l2Index fa)).valid = true ∧
        paddr = (vm.pageAt as (l1Index fa) (l2Index fa)).pageAddress) ∨
    takesFrame vm sp fa = true ∧ ∃ i ret vm', faultPaddr vm as sp fa = (ret, vm') ∧
      Took as (l1Index fa) (l2Index fa) i vm ret vm' := by
  unfold faultPaddr takesFrame
  cases hpe : pageEntryOf vm sp fa with
  | some pe =>
    refine .inl ⟨by simp,_,rfl,?_⟩
    rintro paddr ⟨⟩
    unfold pageEntryOf at hpe
    split at hpe
    · cases hpe
    · rename_i t ht
      rw [pageAt_of_table ((tableAt_of_space hsp hl1).trans ht)]
      dsimp only at hpe
      split at hpe
      · cases hpe
        exact ⟨‹_›,rfl⟩
      · cases hpe
  | none =>
    cases hpos : position sp fa with
    | nowhere => exact .inl ⟨by simp,_,rfl,nofun⟩
    | stack =>
      rcases incStack_took hs hp hsp hl1 with ⟨ha,heq⟩ | ⟨ha,htook⟩
      · exact .inl ⟨by simp [ha],_,heq,nofun⟩
      · exact .inr ⟨by simpa using ha,htook⟩
    | heap =>
      rcases incPage_took hs hp hsp hl1 with ⟨ha,heq⟩ | ⟨ha,htook⟩
      · exact .inl ⟨by simp [ha],_,heq,nofun⟩
      · exact .inr ⟨by simpa using ha,htook⟩

theorem installPage_vm {random : Nat} {ret : IncRet} {vm' : Vm} {e : Option Errno}
    (h : installPage fa random (ret, vm) = .ok (e, vm')) : ∃ tlb, vm' = { vm with tlb := tlb } := by
  cases ret with
  | failed code =>
    cases h
    exact ⟨vm.tlb,rfl⟩
  | mapped paddr =>
    by_cases ha : pageFrame paddr = paddr
    · obtain ⟨-,tlb,-,hok⟩ := @installPage_mapped fa random paddr vm ha
      rw [hok] at h
      cases h
      exact ⟨tlb,rfl⟩
    · rw [installPage_misaligned vm ha] at h
      cases h

theorem asCreate_cases (hs : vm.coremap.Sane) (junk : AddrSpace) :
    asCreate junk vm = (none, vm) ∨ ∃ start sp, start < vm.coremap.count ∧
      (vm.coremap.entries start).allocated = 0 ∧ sp.lvone = junk.lvone ∧
      asCreate junk vm = (some (vm.coremap.kvaddr start),
        (vm.setCoremap (vm.coremap.takeRun start 1)).setSpace (vm.coremap.kvaddr start) sp) := by
  rcases allocKpages_cases hs (npages_one ▸ Nat.one_ne_zero) with hfull | ⟨start,hle,hfree,hgot⟩
  · exact .inl (by simp [asCreate,(kmallocPages_addrspace _).trans hfull])
  · rw [npages_one] at hle hfree hgot
    have hpos : vm.coremap.kvaddr start ≠ 0 := by
      rw [Coremap.kvaddr_eq hs hle]
      unfold mipsKseg0
      omega
    refine .inr ⟨start,{ junk with
        vbase1 := 0, npages1 := 0, vbase2 := 0, npages2 := 0, heapStart := 0, v := none, eoStack := 0 },
      hle,hfree 0 Nat.one_pos,rfl,?_⟩
    simp only [asCreate,(kmallocPages_addrspace _).trans hgot,if_neg hpos]
    rfl

end Fault

end OS161
