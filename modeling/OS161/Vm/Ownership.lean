import OS161.Vm.PageTables
import OS161.Lib.Run

namespace OS161

open Function Coremap

open Holding

structure Sys where
  vm : Vm
  live : Nat → Option Kind

inductive VmOp where
  | allocKpages (npages : Int)
  | freeKpages (addr : Nat)
  | asCreate (junk : AddrSpace)
  | asDestroy (as : Nat)
  | asDefineRegion (as vaddr sz counter : Nat)
  | asDefineStack (as : Nat)
  | sysSbrk (as : Nat) (size : Int)
  | asActivate
  | vmFault (as : Option Nat) (faulttype : FaultType) (faultaddress random : Nat)

def registerTable (live : Nat → Option Kind) (old new : Option Nat) : Nat → Option Kind :=
  match old, new with
  | none, some table => Function.update live table (some .table)
  | _, _ => live

namespace Sys

def boot (ram : Ram) (entries : Nat → CoremapEntry) (tlb : Nat → TlbEntry) : Sys :=
  { vm :=
      { phys := ⟨ram, vmBootstrap ram entries⟩
        spaces := fun _ => none
        tables := fun _ => lv2Empty
        tlb := tlb }
    live := fun _ => none }

def editSpace (s : Sys) (as : Nat) (f : AddrSpace → AddrSpace) : Option Sys :=
  (s.vm.spaces as).map fun sp => { s with vm := s.vm.setSpace as (f sp) }

def fault (s : Sys) (as : Option Nat) (faulttype : FaultType) (fa random : Nat) : Option Sys :=
  if fa < usertop ∧ ∀ a ∈ as, s.vm.spaces a ≠ none then
    match vmFault s.vm as faulttype fa random with
    | .error _ => none
    | .ok (_, vm) =>
      some ⟨vm, match as with
        | none => s.live
        | some a =>
          let l1 := l1Index (pageFrame fa)
          registerTable s.live (s.vm.tableAt a l1) (vm.tableAt a l1)⟩
  else none

end Sys

def vmStep (s : Sys) : VmOp → Option Sys
  | .allocKpages npages =>
    let (a, phys) := allocKpages npages s.vm.phys
    some
      { vm := { s.vm with phys := phys }
        live := if a = 0 then s.live else Function.update s.live a (some .client) }
  | .freeKpages a =>
    if s.live a = some .client then
      some
        { vm := { s.vm with phys := freeKpages a s.vm.phys }
          live := Function.update s.live a none }
    else none
  | .asCreate junk =>
    match asCreate junk s.vm with
    | (none, vm) => some { s with vm := vm }
    | (some as, vm) => some ⟨vm, Function.update s.live as (some .space)⟩
  | .asDestroy as =>
    (s.vm.spaces as).map fun sp => ⟨asDestroy s.vm as sp, Function.update s.live as none⟩
  | .asDefineRegion as vaddr sz counter =>
    s.editSpace as fun sp => (asDefineRegion sp vaddr sz counter).2
  | .asDefineStack as => s.editSpace as asDefineStack
  | .sysSbrk as size => s.editSpace as fun sp => (sysSbrk size sp).2
  | .asActivate => some { s with vm := asActivate s.vm }
  | .vmFault as faulttype fa random => s.fault as faulttype fa random

def VmOp.disciplined : VmOp → Prop
  | .allocKpages npages => u32 npages ≠ 0
  | .asCreate junk => ∀ l1, junk.lvone l1 = none
  | _ => True

def tableFits (s : Sys) : VmOp → Bool
  | .vmFault (some as) _ fa _ =>
    match s.vm.spaces as, allocatePhysicalPage s.vm.phys with
    | some sp, some (_, phys) =>
      (sp.lvone (l1Index (pageFrame fa))).isSome || position sp (pageFrame fa) = .nowhere ||
        (kmallocPages sizeofLv2pt phys).1 ≠ 0
    | _, _ => true
  | _ => true

structure Held (s : Sys) (own : Nat → Option Owner) : Prop where
  ledger : Ledger s.vm.coremap s.live own
  mapped : Mapped s.vm s.live own

structure Evolves (s : Sys) (own : Nat → Option Owner) (op : VmOp) (s' : Sys)
    (own' : Nat → Option Owner) : Prop where
  held : Held s' own'
  frames : s.vm.coremap.SameFrames s'.vm.coremap
  kept : ∀ {i as l1 l2}, own i = some (.page as l1 l2) → op ≠ .asDestroy as →
    own' i = some (.page as l1 l2)
  tight : tableFits s op → Tight s.vm.coremap own → Tight s'.vm.coremap own'

theorem held_boot {ram : Ram} (hram : ram.Accepted) (entries : Nat → CoremapEntry)
    (tlb : Nat → TlbEntry) :
    Held (Sys.boot ram entries tlb) (fun _ => none) where
  ledger := by
    refine ⟨vmBootstrap_sane hram entries,?_,?_,?_⟩ <;> intros <;> contradiction
  mapped := by
    have hnone : ∀ as l1, (Sys.boot ram entries tlb).vm.tableAt as l1 = none :=
      fun _ _ => Vm.tableAt_of_none rfl
    refine ⟨?_,?_,?_,?_,?_,?_⟩
    · intros; contradiction
    · intro as l1 t l2 i h
      rw [hnone] at h
      cases h
    · intro as l1 t l2 h
      rw [hnone] at h
      cases h
    · exact fun h => absurd rfl h
    · intro as l1 t h
      rw [hnone] at h
      cases h
    · intro as as' l1 l1' t h
      rw [hnone] at h
      cases h

theorem grant_kernel_page {own : Nat → Option Owner} {p : Nat → Prop} {a i as l1 l2 : Nat}
    (hp : ∀ {i}, p i → own i = none) :
    grant own (.kernel a) p i = some (.page as l1 l2) ↔ own i = some (.page as l1 l2) := by
  rw [grant_eq_some]
  constructor
  · rintro (⟨-,h⟩ | ⟨-,h⟩)
    · cases h
    · exact h
  · intro h
    refine Or.inr ⟨fun hi => ?_,h⟩
    rw [hp hi] at h
    cases h

theorem release_kernel_page {own : Nat → Option Owner} {a i as l1 l2 : Nat} :
    release own (· = .kernel a) i = some (.page as l1 l2) ↔ own i = some (.page as l1 l2) := by
  rw [release_eq_some]
  exact and_iff_left (fun h => by cases h)

theorem grant_page_other {own : Nat → Option Owner} {p : Nat → Prop} {as a l1 l2 k1 k2 i : Nat}
    (h : grant own (.page as k1 k2) p i = some (.page a l1 l2)) (ha : a ≠ as) :
    own i = some (.page a l1 l2) := by
  rcases grant_eq_some.mp h with ⟨-,heq⟩ | ⟨-,h⟩
  · exact absurd (Owner.page.inj heq).1 ha
  · exact h

theorem npages_one : u32 1 = 1 := rfl

theorem npages_two : u32 2 = 2 := rfl

theorem kmallocPages_addrspace (p : Phys) : kmallocPages sizeofAddrspace p = allocKpages 1 p := rfl

theorem kmallocPages_lv2pt (p : Phys) : kmallocPages sizeofLv2pt p = allocKpages 2 p := rfl

structure NewTable (s : Sys) (own : Nat → Option Owner) (as l1 t : Nat) (vm' : Vm)
    (own' : Nat → Option Owner) : Prop where
  held : Held ⟨vm', Function.update s.live t (some .table)⟩ own'
  frames : s.vm.coremap.SameFrames vm'.coremap
  at_l1 : vm'.tableAt as l1 = some t
  empty : vm'.tables t = lv2Empty
  tlb : vm'.tlb = s.vm.tlb
  busy : ∀ {i}, (s.vm.coremap.entries i).allocated = 1 →
    (vm'.coremap.entries i).allocated = 1 ∧ own' i = own i
  kept : ∀ {i o}, own i = some o → own' i = some o
  pages : ∀ {i a l1 l2}, own' i = some (.page a l1 l2) → own i = some (.page a l1 l2)
  tight : ∀ {p}, TightOn p s.vm.coremap own → TightOn p vm'.coremap own'

structure Granted (s : Sys) (own : Nat → Option Owner) (as fa i : Nat) (vm' : Vm)
    (own' : Nat → Option Owner) : Prop where
  held : Held ⟨vm', registerTable s.live (s.vm.tableAt as (l1Index fa))
    (vm'.tableAt as (l1Index fa))⟩ own'
  frames : s.vm.coremap.SameFrames vm'.coremap
  owner : own' i = some (.page as (l1Index fa) (l2Index fa))
  tlb : vm'.tlb = s.vm.tlb
  kept : ∀ {i o}, own i = some o → own' i = some o
  pages : ∀ {j a l1 l2}, own' j = some (.page a l1 l2) → a ≠ as → own j = some (.page a l1 l2)
  tight : Tight s.vm.coremap own → Tight vm'.coremap own'

theorem l2Index_lt (fa : Nat) : l2Index fa < level2Size := Nat.mod_lt _ (by decide)

section Steps
variable {s s' : Sys} {own : Nat → Option Owner} (hh : Held s own)
include hh

theorem Held.free_run {h n : Nat} (hfree : ∀ k < n, (s.vm.coremap.entries (h + k)).allocated = 0)
    {i : Nat} (hi : h ≤ i ∧ i < h + n) : own i = none := by
  refine hh.ledger.own_none ?_
  have := hfree (i - h) (by omega)
  rw [Nat.add_sub_cancel' hi.1] at this
  omega

theorem Held.fresh_space {h : Nat} (hlt : h < s.vm.coremap.count)
    (hfree : (s.vm.coremap.entries h).allocated = 0) {as : Nat} {k : Option Kind}
    (hs : s.vm.spaces as ≠ none) :
    Function.update s.live (s.vm.coremap.kvaddr h) k as = some .space := by
  have hne : as ≠ s.vm.coremap.kvaddr h := fun heq => by
    have hspace := hh.mapped.space hs
    rw [heq,hh.ledger.fresh hlt (by omega)] at hspace
    cases hspace
  rw [update_of_ne hne]
  exact hh.mapped.space hs

theorem Held.fresh_table {h : Nat} (hlt : h < s.vm.coremap.count)
    (hfree : (s.vm.coremap.entries h).allocated = 0) {t : Nat} {k : Option Kind}
    (ht : s.live t = some .table) :
    Function.update s.live (s.vm.coremap.kvaddr h) k t = some .table := by
  have hne : t ≠ s.vm.coremap.kvaddr h := fun heq => by
    rw [heq,hh.ledger.fresh hlt (by omega)] at ht
    cases ht
  rwa [update_of_ne hne]

theorem Held.take {start n : Nat} (hn : 0 < n) (hle : start + n ≤ s.vm.coremap.count)
    (hfree : ∀ k < n, (s.vm.coremap.entries (start + k)).allocated = 0) {kind : Kind} {vm' : Vm}
    (hco : vm'.coremap = s.vm.coremap.takeRun start n) (htables : vm'.tables = s.vm.tables)
    (htab : ∀ as l1, vm'.tableAt as l1 = s.vm.tableAt as l1)
    (hspace : ∀ {as}, vm'.spaces as ≠ none →
      s.vm.spaces as ≠ none ∨ as = s.vm.coremap.kvaddr start ∧ kind = .space) :
    Held ⟨vm', Function.update s.live (s.vm.coremap.kvaddr start) (some kind)⟩
      (grant own (.kernel (s.vm.coremap.kvaddr start)) fun i => start ≤ i ∧ i < start + n) where
  ledger := by
    rw [hco]
    exact hh.ledger.take hn hle hfree kind
  mapped := by
    have hstart : (s.vm.coremap.entries start).allocated = 0 := hfree 0 hn
    have hlt : start < s.vm.coremap.count := by omega
    dsimp only
    refine hh.mapped.mono htab htables (by rw [hco,(sameFrames_takeRun _ _ _).frameAddr]) (fun _ => ?_)
      (grant_kernel_page (hh.free_run hfree)) (fun {as} hs => ?_)
      (fun ht => hh.fresh_table hlt hstart ht)
    · rw [hco,takeRun_as,takeRun_pe]
      exact ⟨rfl,rfl⟩
    · rcases hspace hs with hs | ⟨has,hkind⟩
      · exact hh.fresh_space hlt hstart hs
      · rw [has,hkind,update_self]

theorem Held.evolves_alloc {npages : Int} (hd : u32 npages ≠ 0)
    (hstep : vmStep s (.allocKpages npages) = some s') :
    ∃ own', Evolves s own (.allocKpages npages) s' own' := by
  simp only [vmStep] at hstep
  rcases allocKpages_cases hh.ledger.sane hd with ha | ⟨start,hle,hfree,ha⟩
  · rw [ha,if_pos rfl] at hstep
    cases hstep
    exact ⟨own,hh,Coremap.SameFrames.refl _,fun h _ => h,fun _ h => h⟩
  · have hpos : s.vm.coremap.kvaddr start ≠ 0 := by
      rw [kvaddr_eq hh.ledger.sane (Nat.lt_of_lt_of_le (by omega) hle)]
      unfold mipsKseg0
      omega
    rw [ha] at hstep
    simp only [if_neg hpos,Option.some.injEq] at hstep
    subst hstep
    refine ⟨_,hh.take (by omega) hle hfree rfl rfl (fun _ _ => rfl) Or.inl,
      sameFrames_takeRun _ _ _,
      fun h _ => (grant_kernel_page (hh.free_run hfree)).mpr h,fun _ h => TightOn.take h⟩

theorem Held.evolves_free {a : Nat} (hstep : vmStep s (.freeKpages a) = some s') :
    ∃ own', Evolves s own (.freeKpages a) s' own' := by
  simp only [vmStep] at hstep
  split at hstep
  case isFalse => cases hstep
  case isTrue hlive =>
    cases hstep
    have hsame : ∀ {b k}, k ≠ .client → s.live b = some k →
        update s.live a none b = some k := fun {b k} hk hb => by
      have hne : b ≠ a := fun heq => by
        rw [heq,hlive,Option.some_inj] at hb
        exact hk hb.symm
      rwa [update_of_ne hne]
    refine ⟨release own (· = .kernel a),⟨hh.ledger.free rfl hlive,?_⟩,
      sameFrames_freeKpages _ _,
      fun h _ => release_kernel_page.mpr h,fun _ h => h.free hh.ledger rfl hlive⟩
    refine hh.mapped.mono (fun _ _ => rfl) rfl rfl (fun {i as l1 l2} ho => ?_)
      release_kernel_page (fun hs => hsame (by decide) (hh.mapped.space hs))
      (hsame (by decide))
    have hent := (hh.ledger.free_entries rfl hlive i).2
      (by rw [ho]; exact fun h => by cases h)
    exact ⟨congrArg CoremapEntry.as hent,congrArg CoremapEntry.pe hent⟩

theorem Held.evolves_create {junk : AddrSpace} (hd : ∀ l1, junk.lvone l1 = none)
    (hstep : vmStep s (.asCreate junk) = some s') :
    ∃ own', Evolves s own (.asCreate junk) s' own' := by
  simp only [vmStep,asCreate] at hstep
  rcases allocKpages_cases hh.ledger.sane (npages_one ▸ Nat.one_ne_zero) with
    ha | ⟨start,hle,hfree,ha⟩
  · simp only [(kmallocPages_addrspace _).trans ha,if_true,Option.some.injEq] at hstep
    subst hstep
    exact ⟨own,hh,Coremap.SameFrames.refl _,fun h _ => h,fun _ h => h⟩
  · rw [npages_one] at hle hfree ha
    have hlt : start < s.vm.coremap.count := hle
    have hfree0 : (s.vm.coremap.entries start).allocated = 0 := hfree 0 Nat.one_pos
    have hpos : s.vm.coremap.kvaddr start ≠ 0 := by
      rw [kvaddr_eq hh.ledger.sane hlt]
      unfold mipsKseg0
      omega
    have hnew : s.vm.spaces (s.vm.coremap.kvaddr start) = none := by
      by_contra hs
      have hspace := hh.mapped.space hs
      rw [hh.ledger.fresh hlt (by omega)] at hspace
      cases hspace
    simp only [(kmallocPages_addrspace _).trans ha,if_neg hpos,Option.some.injEq] at hstep
    subst hstep
    refine ⟨_,hh.take Nat.one_pos hle hfree rfl rfl (fun as l1 => ?_) (fun {as} hs => ?_),
      sameFrames_takeRun _ _ _,
      fun h _ => (grant_kernel_page (hh.free_run hfree)).mpr h,fun _ h => TightOn.take h⟩
    · by_cases has : as = s.vm.coremap.kvaddr start
      · rw [has,Vm.tableAt_of_none hnew]
        simp [Vm.tableAt,hd]
      · exact Vm.tableAt_congr (by simp [update_of_ne has]) l1
    · by_cases has : as = s.vm.coremap.kvaddr start
      · exact Or.inr ⟨has,rfl⟩
      · dsimp only at hs
        rw [update_of_ne has] at hs
        exact Or.inl hs

theorem Held.setSpace {as : Nat} {sp sp' : AddrSpace} (hsp : s.vm.spaces as = some sp)
    (hlv : sp'.lvone = sp.lvone) : Held { s with vm := s.vm.setSpace as sp' } own := by
  refine ⟨hh.ledger,?_⟩
  refine hh.mapped.mono (fun as' l1 => Vm.tableAt_congr ?_ l1) rfl rfl (fun _ => ⟨rfl,rfl⟩) Iff.rfl
    (fun {as'} hs => ?_) id
  · by_cases has : as' = as
    · simp [Vm.setSpace,has,hsp,hlv]
    · simp [Vm.setSpace,update_of_ne has]
  · by_cases has : as' = as
    · exact hh.mapped.space (by rw [has,hsp]; simp)
    · exact hh.mapped.space (by simpa [Vm.setSpace,update_of_ne has] using hs)

theorem Held.evolves_edit {as : Nat} {f : AddrSpace → AddrSpace} {op : VmOp}
    (hf : ∀ sp, (f sp).lvone = sp.lvone) (hstep : s.editSpace as f = some s') :
    ∃ own', Evolves s own op s' own' := by
  simp only [Sys.editSpace,Option.map_eq_some_iff] at hstep
  obtain ⟨sp,hsp,rfl⟩ := hstep
  exact ⟨own,hh.setSpace hsp (hf sp),Coremap.SameFrames.refl _,fun h _ => h,fun _ h => h⟩

theorem Held.setTlb (tlb : Nat → TlbEntry) : Held { s with vm := { s.vm with tlb := tlb } } own :=
  ⟨hh.ledger,hh.mapped.mono (fun _ _ => rfl) rfl rfl (fun _ => ⟨rfl,rfl⟩) Iff.rfl
    hh.mapped.space id⟩

theorem Held.destroyed_iff {as : Nat} {sp : AddrSpace} (hsp : s.vm.spaces as = some sp) (i : Nat) :
    (∃ l1 < level1Size, ∃ t, sp.lvone l1 = some t ∧ pointsTo (s.vm.tables t) i) ↔
      ∃ l1 l2, own i = some (.page as l1 l2) := by
  constructor
  · rintro ⟨l1,hl1,t,ht,l2,hl2,hc⟩
    have hat := Vm.tableAt_of_space hsp hl1
    exact ⟨l1,l2,hh.mapped.entry (hat.trans ht) hl2 hc⟩
  · rintro ⟨l1,l2,ho⟩
    obtain ⟨t,ht,hl2,hpe,-⟩ := hh.mapped.page ho
    have hl1 : l1 < level1Size := by
      by_contra h
      simp [Vm.tableAt,h] at ht
    rw [Vm.tableAt_of_space hsp hl1] at ht
    exact ⟨l1,hl1,t,ht,l2,hl2,by rw [hpe]⟩

theorem Held.destroy_entry {as : Nat} {sp : AddrSpace} (hsp : s.vm.spaces as = some sp) (i : Nat) :
    ((∃ l1 l2, own i = some (.page as l1 l2)) →
      (destroyTables s.vm sp).coremap.entries i = ⟨0, 0, none, none⟩) ∧
    ((¬ ∃ l1 l2, own i = some (.page as l1 l2)) →
      (destroyTables s.vm sp).coremap.entries i = s.vm.coremap.entries i) := by
  rw [← hh.destroyed_iff hsp i,destroyTables_entries]
  exact ⟨fun h => if_pos h,fun h => if_neg h⟩

theorem Held.destroyed_ledger {as : Nat} {sp : AddrSpace} (hsp : s.vm.spaces as = some sp) :
    Ledger (destroyTables s.vm sp).coremap s.live (release own (Owner.pageOf as)) := by
  refine hh.ledger.restrict (destroyTables_frames s.vm sp) (fun h => ⟨h,id⟩) (fun _ h => h)
    (fun {i o} ho hq => ?_)
  · have hno : ¬ ∃ l1 l2, own i = some (.page as l1 l2) := by
      rintro ⟨l1,l2,ho'⟩
      rw [ho,Option.some_inj] at ho'
      exact hq (by rw [ho']; exact rfl)
    rw [(hh.destroy_entry hsp i).2 hno]
    exact ⟨(hh.ledger.bound ho).2,rfl⟩

theorem Held.destroyed_tight {as : Nat} {sp : AddrSpace} (hsp : s.vm.spaces as = some sp)
    (ht : Tight s.vm.coremap own) :
    Tight (destroyTables s.vm sp).coremap (release own (Owner.pageOf as)) := by
  have hcount : (destroyTables s.vm sp).coremap.count = s.vm.coremap.count :=
    (destroyTables_frames s.vm sp).count
  intro i hi _ hall hnone
  by_cases ho : ∃ l1 l2, own i = some (.page as l1 l2)
  · rw [(hh.destroy_entry hsp i).1 ho] at hall
    exact absurd hall (by decide)
  · rw [(hh.destroy_entry hsp i).2 ho] at hall
    obtain ⟨o,ho'⟩ := Option.ne_none_iff_exists'.mp (ht i (hcount ▸ hi) trivial hall)
    cases o with
    | kernel a => exact release_eq_none.mp hnone _ ho'
    | page as' l1 l2 =>
      have heq : as' = as := release_eq_none.mp hnone _ ho'
      exact ho ⟨l1,l2,heq ▸ ho'⟩

theorem Held.evolves_destroy {as : Nat} (hstep : vmStep s (.asDestroy as) = some s') :
    ∃ own', Evolves s own (.asDestroy as) s' own' := by
  simp only [vmStep,Option.map_eq_some_iff] at hstep
  obtain ⟨sp,hsp,rfl⟩ := hstep
  have hlive : s.live as = some .space := hh.mapped.space (by rw [hsp]; simp)
  have hledger := hh.destroyed_ledger hsp
  have hframes : s.vm.coremap.SameFrames (asDestroy s.vm as sp).coremap :=
    (destroyTables_frames s.vm sp).trans (sameFrames_freeKpages _ _)
  have hspaces : ∀ as', (asDestroy s.vm as sp).spaces as' =
      if as' = as then none else s.vm.spaces as' := by
    intro as'
    simp only [asDestroy,update_apply,destroyTables_spaces]
  have hown : ∀ {i as' l1 l2},
      release (release own (Owner.pageOf as)) (· = .kernel as) i = some (.page as' l1 l2) ↔
        as' ≠ as ∧ own i = some (.page as' l1 l2) := by
    intro i as' l1 l2
    rw [release_kernel_page,release_eq_some,and_comm]
    exact Iff.rfl
  refine ⟨release (release own (Owner.pageOf as)) (· = .kernel as),⟨hledger.free rfl hlive,?_⟩,
    hframes,fun h hop => hown.mpr ⟨fun heq => hop (by rw [heq]),h⟩,
    fun _ ht => (hh.destroyed_tight hsp ht).free hledger rfl hlive⟩
  refine hh.mapped.restrict (· ≠ as) (fun as' l1 t => ?_) (fun as' l1 t hne ht => ?_)
    hframes.frameAddr (fun {i as' l1 l2} ho hne => ?_) hown (fun {as'} hs => ?_)
    (fun {t} ht => ?_)
  · unfold Vm.tableAt
    rw [hspaces]
    by_cases has : as' = as <;> simp [has]
  · have hno : ∀ l1' < level1Size, sp.lvone l1' ≠ some t := fun l1' hl1' heq =>
      hne (hh.mapped.inj ht ((Vm.tableAt_of_space hsp hl1').trans heq)).1
    simp only [asDestroy]
    exact destroyTables_tables s.vm sp hno
  · have hkept : release own (Owner.pageOf as) i = some (.page as' l1 l2) :=
      release_eq_some.mpr ⟨ho,hne⟩
    have hfree := (hledger.free_entries rfl hlive i).2 (by rw [hkept]; exact fun h => by cases h)
    have hent := (hh.destroy_entry hsp i).2 (by
      rintro ⟨l1',l2',ho'⟩
      rw [ho,Option.some_inj] at ho'
      exact hne (Owner.page.inj ho').1)
    have hsame := hfree.trans hent
    exact ⟨congrArg CoremapEntry.as hsame,congrArg CoremapEntry.pe hsame⟩
  · rw [hspaces] at hs
    by_cases has : as' = as
    · rw [if_pos has] at hs
      exact absurd rfl hs
    · rw [if_neg has] at hs
      dsimp only
      rw [update_of_ne has]
      exact hh.mapped.space hs
  · have hne : t ≠ as := fun heq => by
      rw [heq,hlive] at ht
      cases ht
    dsimp only
    rwa [update_of_ne hne]

theorem Held.mark (i : Nat) :
    Held { s with vm := s.vm.mark i } own where
  ledger := hh.ledger.mark
  mapped := by
    refine hh.mapped.mono (fun _ _ => rfl) rfl (s.vm.sameFrames_mark i).frameAddr
      (fun {j as l1 l2} _ => ?_) Iff.rfl hh.mapped.space id
    dsimp only [Vm.mark,Vm.setEntry,Vm.setCoremap,Vm.coremap]
    rw [entries_setEntry,update_apply]
    split
    case isTrue hj => rw [hj]; exact ⟨rfl,rfl⟩
    case isFalse => exact ⟨rfl,rfl⟩

theorem Held.newTable {as l1 : Nat} {sp : AddrSpace} (hsp : s.vm.spaces as = some sp)
    (hl1 : l1 < level1Size) (hlv : sp.lvone l1 = none) :
    (lv2Table s.vm as sp l1 = none ∧ (kmallocPages sizeofLv2pt s.vm.phys).1 = 0) ∨
      ∃ t vm' own', lv2Table s.vm as sp l1 = some (t, vm') ∧ NewTable s own as l1 t vm' own' := by
  have hnone : s.vm.tableAt as l1 = none := (Vm.tableAt_of_space hsp hl1).trans hlv
  rcases allocKpages_cases hh.ledger.sane (npages_two ▸ Nat.two_pos.ne') with
    ha | ⟨start,hle,hfree,ha⟩
  · left
    simp [lv2Table,hlv,(kmallocPages_lv2pt _).trans ha]
  right
  rw [npages_two] at hle hfree ha
  have hlt : start < s.vm.coremap.count := Nat.lt_of_lt_of_le (by omega) hle
  have hfree0 : (s.vm.coremap.entries start).allocated = 0 := hfree 0 Nat.two_pos
  have hpos : s.vm.coremap.kvaddr start ≠ 0 := by
    rw [kvaddr_eq hh.ledger.sane hlt]
    unfold mipsKseg0
    omega
  have hnew := hh.ledger.fresh hlt (by omega : (s.vm.coremap.entries start).allocated ≠ 1)
  have hbusy : ∀ {i}, (s.vm.coremap.entries i).allocated = 1 → ¬ (start ≤ i ∧ i < start + 2) := by
    intro i hi hrun
    have := hfree (i - start) (by omega)
    rw [Nat.add_sub_cancel' hrun.1] at this
    have hi' : (s.vm.phys.coremap.entries i).allocated = 1 := hi
    omega
  let vm' := s.vm.setCoremap (s.vm.coremap.takeRun start 2)
  have htab := @Vm.tableAt_linkTable vm' as l1 (s.vm.coremap.kvaddr start) sp hsp hl1
  have htake := hh.ledger.take Nat.two_pos hle hfree .table
  have hframes := sameFrames_takeRun s.vm.coremap start 2
  refine ⟨s.vm.coremap.kvaddr start,linkTable vm' as sp l1 (s.vm.coremap.kvaddr start),
    grant own (.kernel (s.vm.coremap.kvaddr start)) fun i => start ≤ i ∧ i < start + 2,
    ?_,⟨⟨htake,?_⟩,hframes,?_,?_,rfl,?_,?_,(grant_kernel_page (hh.free_run hfree)).mp,
      TightOn.take⟩⟩
  · simp only [lv2Table,hlv,(kmallocPages_lv2pt _).trans ha,if_neg hpos]
    rfl
  · dsimp only
    refine hh.mapped.addTable htab hnone hnew rfl hframes.frameAddr
      (fun {i _ _ _} _ => ?_) (grant_kernel_page (hh.free_run hfree)) (fun {as'} hs => ?_)
    · exact ⟨takeRun_as _ _ _ _,takeRun_pe _ _ _ _⟩
    · by_cases has : as' = as
      · rw [has,hsp]
        simp
      · simpa [linkTable,Vm.setSpace,has,vm',Vm.setCoremap] using hs
  · rw [htab,if_pos ⟨rfl,rfl⟩]
  · simp [linkTable,Vm.setSpace]
  · intro i hi
    refine ⟨?_,grant_of_neg (hbusy hi)⟩
    exact (takeRun_allocated _ _ _ _).trans ((if_neg (hbusy hi)).trans hi)
  · intro i o ho
    exact grant_eq_some.mpr (Or.inr ⟨hbusy (hh.ledger.bound ho).2,ho⟩)

theorem Held.link {as l1 l2 t i : Nat} (ht : s.vm.tableAt as l1 = some t) (hl2 : l2 < level2Size)
    (hnone : (s.vm.tables t l2).coremapPtr = none) (hown : own i = none)
    (hi : i < s.vm.coremap.count) (hall : (s.vm.coremap.entries i).allocated = 1) :
    Held { s with vm := linkPage s.vm as t l2 i } (grant own (.page as l1 l2) (· = i)) where
  ledger := hh.ledger.assign hi hown hall
  mapped := hh.mapped.link ht hl2 hnone hown

theorem Held.granted_old {as t fa i : Nat} (ht : s.vm.tableAt as (l1Index fa) = some t)
    (hv : (s.vm.tables t (l2Index fa)).valid = false) (hi : i < s.vm.coremap.count)
    (hall : (s.vm.coremap.entries i).allocated = 0) :
    Granted s own as fa i (linkPage (s.vm.mark i) as t (l2Index fa) i)
      (grant own (.page as (l1Index fa) (l2Index fa)) (· = i)) := by
  have hown : own i = none := hh.ledger.own_none (by omega)
  have hlink := (hh.mark i).link ht (l2Index_lt fa)
    (hh.mapped.unmapped ht (l2Index_lt fa) hv) hown hi (s.vm.mark_allocated i)
  refine ⟨?_,(s.vm.sameFrames_mark i).trans (sameFrames_setEntry _ _ _),
    grant_of_pos rfl,rfl,fun {j o} ho => ?_,grant_page_other,fun h => TightOn.assign h.mark⟩
  · have ht' : (linkPage (s.vm.mark i) as t (l2Index fa) i).tableAt as (l1Index fa) = some t := ht
    rw [ht',ht]
    exact hlink
  · refine grant_eq_some.mpr (Or.inr ⟨fun heq => ?_,ho⟩)
    rw [heq,hown] at ho
    cases ho

theorem Held.granted_new {as fa i t : Nat} {sp : AddrSpace} {vm' : Vm} {own' : Nat → Option Owner}
    (hsp : s.vm.spaces as = some sp) (hl1 : l1Index fa < level1Size)
    (hlv : sp.lvone (l1Index fa) = none) (hi : i < s.vm.coremap.count)
    (hall : (s.vm.coremap.entries i).allocated = 0)
    (hnew : NewTable { s with vm := s.vm.mark i } own as (l1Index fa) t vm' own') :
    Granted s own as fa i (linkPage vm' as t (l2Index fa) i)
      (grant own' (.page as (l1Index fa) (l2Index fa)) (· = i)) := by
  have hown : own i = none := hh.ledger.own_none (by omega)
  obtain ⟨hall',hown'⟩ := hnew.busy (s.vm.mark_allocated i)
  have hframes := (s.vm.sameFrames_mark i).trans hnew.frames
  have hlink := hnew.held.link hnew.at_l1 (l2Index_lt fa) (by rw [hnew.empty]; rfl)
    (hown'.trans hown) (by rw [hframes.count]; exact hi) hall'
  refine ⟨?_,hframes.trans (sameFrames_setEntry _ _ _),grant_of_pos rfl,
    hnew.tlb,fun {j o} ho => ?_,fun ho ha => hnew.pages (grant_page_other ho ha),
    fun h => TightOn.assign (hnew.tight h.mark)⟩
  · have hold : s.vm.tableAt as (l1Index fa) = none := (Vm.tableAt_of_space hsp hl1).trans hlv
    have ht' : (linkPage vm' as t (l2Index fa) i).tableAt as (l1Index fa) = some t := hnew.at_l1
    rw [ht',hold]
    exact hlink
  · refine grant_eq_some.mpr (Or.inr ⟨fun heq => ?_,hnew.kept ho⟩)
    rw [heq,hown] at ho
    cases ho

theorem Held.incPage_cases {as fa : Nat} {sp : AddrSpace} (hsp : s.vm.spaces as = some sp)
    (hl1 : l1Index fa < level1Size) (hno : pageEntryOf s.vm sp fa = none) :
    (incPage s.vm as sp fa = (.failed (-1), s.vm) ∧
      ∀ i < s.vm.coremap.count, (s.vm.coremap.entries i).allocated ≠ 0) ∨
    (∃ i phys, allocatePhysicalPage s.vm.phys = some (i, phys) ∧
      sp.lvone (l1Index fa) = none ∧ (kmallocPages sizeofLv2pt phys).1 = 0 ∧
      incPage s.vm as sp fa = (.failed 4, s.vm.mark i)) ∨
    ∃ i vm' own', (s.vm.coremap.entries i).allocated = 0 ∧
      incPage s.vm as sp fa = (.mapped (s.vm.coremap.frameAddr i), vm') ∧
      Granted s own as fa i vm' own' := by
  unfold incPage
  rcases allocatePhysicalPage_cases s.vm.phys with ⟨ha,hfull⟩ | ⟨i,hi,hall,ha⟩
  · exact Or.inl ⟨by rw [ha],hfull⟩
  right
  simp only [ha]
  cases hlv : sp.lvone (l1Index fa) with
  | some t =>
    have ht : s.vm.tableAt as (l1Index fa) = some t := (Vm.tableAt_of_space hsp hl1).trans hlv
    have hv : (s.vm.tables t (l2Index fa)).valid = false := by
      simpa [pageEntryOf,hlv] using hno
    refine Or.inr ⟨i,_,_,hall,?_,hh.granted_old ht hv hi hall⟩
    simp only [lv2Table,hlv]
    rfl
  | none =>
    rcases (hh.mark i).newTable hsp hl1 hlv with ⟨hlt,hk⟩ | ⟨t,vm',own',hlt,hnew⟩
    · refine Or.inl ⟨i,_,rfl,rfl,hk,?_⟩
      have hlt' : lv2Table { s.vm with phys := { s.vm.phys with
          coremap := s.vm.phys.coremap.setEntry i
            { s.vm.phys.coremap.entries i with allocated := 1 } } } as sp (l1Index fa) = none := hlt
      rw [hlt']
      rfl
    · refine Or.inr ⟨i,_,_,hall,?_,hh.granted_new hsp hl1 hlv hi hall hnew⟩
      have hlt' : lv2Table { s.vm with phys := { s.vm.phys with
          coremap := s.vm.phys.coremap.setEntry i
            { s.vm.phys.coremap.entries i with allocated := 1 } } } as sp (l1Index fa) =
          some (t, vm') := hlt
      have hframes := (s.vm.sameFrames_mark i).trans hnew.frames
      rw [hlt']
      simp only [Prod.mk.injEq,IncRet.mapped.injEq,and_true]
      exact congrFun hframes.frameAddr i

end Steps

section Faults
variable {s s' : Sys} {own own' : Nat → Option Owner}

theorem Granted.shrink {as fa i : Nat} {vm' : Vm} (hg : Granted s own as fa i vm' own') :
    Granted s own as fa i (shrinkStack vm' as) own' := by
  unfold shrinkStack
  cases hsp : vm'.spaces as with
  | none => exact hg
  | some sp =>
    have hat : (vm'.setSpace as { sp with eoStack := offT (sp.eoStack - 4096) }).tableAt as
        (l1Index fa) = vm'.tableAt as (l1Index fa) :=
      Vm.tableAt_congr (by simp [Vm.setSpace,hsp]) _
    refine ⟨?_,hg.frames,hg.owner,hg.tlb,hg.kept,hg.pages,hg.tight⟩
    rw [hat]
    exact hg.held.setSpace hsp rfl

theorem Held.faultPaddr_cases (hh : Held s own) {as fa : Nat} {sp : AddrSpace}
    (hsp : s.vm.spaces as = some sp) (hl1 : l1Index fa < level1Size) :
    (∃ pe, pageEntryOf s.vm sp fa = some pe ∧
      faultPaddr s.vm as sp fa = (.mapped pe.pageAddress, s.vm)) ∨
    (pageEntryOf s.vm sp fa = none ∧
      ((position sp fa = .nowhere ∧ faultPaddr s.vm as sp fa = (.failed 1, s.vm)) ∨
      (position sp fa ≠ .nowhere ∧
        ((faultPaddr s.vm as sp fa = (.failed (-1), s.vm) ∧
          ∀ i < s.vm.coremap.count, (s.vm.coremap.entries i).allocated ≠ 0) ∨
        (∃ i phys, allocatePhysicalPage s.vm.phys = some (i, phys) ∧
          sp.lvone (l1Index fa) = none ∧ (kmallocPages sizeofLv2pt phys).1 = 0 ∧
          faultPaddr s.vm as sp fa = (.failed 4, s.vm.mark i)) ∨
        ∃ i vm' own', (s.vm.coremap.entries i).allocated = 0 ∧
          faultPaddr s.vm as sp fa = (.mapped (s.vm.coremap.frameAddr i), vm') ∧
          Granted s own as fa i vm' own')))) := by
  cases hpe : pageEntryOf s.vm sp fa with
  | some pe => exact Or.inl ⟨pe,rfl,by simp only [faultPaddr,hpe]⟩
  | none =>
    refine Or.inr ⟨rfl,?_⟩
    cases hpos : position sp fa with
    | nowhere => exact Or.inl ⟨rfl,by simp only [faultPaddr,hpe,hpos]⟩
    | heap =>
      refine Or.inr ⟨by simp,?_⟩
      simp only [faultPaddr,hpe,hpos,incHeap]
      exact hh.incPage_cases hsp hl1 hpe
    | stack =>
      refine Or.inr ⟨by simp,?_⟩
      simp only [faultPaddr,hpe,hpos,incStack]
      rcases hh.incPage_cases hsp hl1 hpe with ⟨hinc,hfull⟩ | ⟨i,phys,ha,hlv,hk,hinc⟩ |
        ⟨i,vm',own',hall,hinc,hg⟩
      · exact Or.inl ⟨by rw [hinc],hfull⟩
      · exact Or.inr (Or.inl ⟨i,phys,ha,hlv,hk,by rw [hinc]⟩)
      · exact Or.inr (Or.inr ⟨i,_,own',hall,by rw [hinc],hg.shrink⟩)

theorem registerTable_self (live : Nat → Option Kind) (t : Option Nat) :
    registerTable live t t = live := by
  cases t <;> rfl

theorem l1Index_lt {fa : Nat} (h : fa < usertop) : l1Index (pageFrame fa) < level1Size := by
  unfold usertop mipsKseg0 at h
  unfold l1Index pageFrame level1Size
  omega

theorem fault_some {as : Nat} {ft : FaultType} {fa random : Nat}
    (hstep : s.fault (some as) ft fa random = some s') :
    ∃ sp e vm', fa < usertop ∧ ft ≠ .readonly ∧ s.vm.spaces as = some sp ∧
      installPage (pageFrame fa) random (faultPaddr s.vm as sp (pageFrame fa)) = .ok (e, vm') ∧
      s' = ⟨vm', registerTable s.live (s.vm.tableAt as (l1Index (pageFrame fa)))
        (vm'.tableAt as (l1Index (pageFrame fa)))⟩ := by
  unfold Sys.fault at hstep
  split at hstep
  case isFalse => cases hstep
  case isTrue hg =>
    obtain ⟨sp,hsp⟩ := Option.ne_none_iff_exists'.mp (hg.2 as rfl)
    have hft : ft ≠ .readonly := fun h => by
      rw [h] at hstep
      simp [vmFault] at hstep
    rw [vmFault_eq hsp hft] at hstep
    split at hstep
    case h_1 => cases hstep
    case h_2 e vm' hins =>
      cases hstep
      exact ⟨sp,e,vm',hg.1,hft,hsp,hins,rfl⟩

theorem fault_none {ft : FaultType} {fa random : Nat}
    (hstep : s.fault none ft fa random = some s') : s' = s := by
  unfold Sys.fault at hstep
  split at hstep
  case isFalse => cases hstep
  case isTrue =>
    cases ft <;> simp [vmFault] at hstep <;> exact hstep.symm

theorem Held.evolves_fault (hh : Held s own) {as : Option Nat} {ft : FaultType} {fa random : Nat}
    (hstep : vmStep s (.vmFault as ft fa random) = some s') :
    ∃ own', Evolves s own (.vmFault as ft fa random) s' own' := by
  cases as with
  | none =>
    rw [fault_none hstep]
    exact ⟨own,hh,Coremap.SameFrames.refl _,fun h _ => h,fun _ h => h⟩
  | some as =>
    obtain ⟨sp,e,vm',hfa,-,hsp,hins,rfl⟩ := fault_some hstep
    have hl1 := l1Index_lt hfa
    rcases hh.faultPaddr_cases hsp hl1 with ⟨pe,-,hp⟩ | ⟨-,⟨-,hp⟩ | ⟨hpos,⟨hp,-⟩ |
      ⟨i,phys,ha,hlv,hk,hp⟩ | ⟨i,vm1,own',-,hp,hg⟩⟩⟩
    · rw [hp] at hins
      by_cases halign : pageFrame pe.pageAddress = pe.pageAddress
      · obtain ⟨-,tlb,-,hok⟩ := installPage_mapped s.vm halign
        rw [hok] at hins
        cases hins
        refine ⟨own,?_,Coremap.SameFrames.refl _,fun h _ => h,fun _ h => h⟩
        have hat : ({ s.vm with tlb := tlb } : Vm).tableAt as (l1Index (pageFrame fa)) =
            s.vm.tableAt as (l1Index (pageFrame fa)) := rfl
        rw [hat,registerTable_self]
        exact hh.setTlb tlb
      · rw [installPage_misaligned s.vm halign] at hins
        cases hins
    · rw [hp,installPage_failed] at hins
      cases hins
      rw [registerTable_self]
      exact ⟨own,hh,Coremap.SameFrames.refl _,fun h _ => h,fun _ h => h⟩
    · rw [hp,installPage_failed] at hins
      cases hins
      rw [registerTable_self]
      exact ⟨own,hh,Coremap.SameFrames.refl _,fun h _ => h,fun _ h => h⟩
    · rw [hp,installPage_failed] at hins
      cases hins
      have hat : (s.vm.mark i).tableAt as (l1Index (pageFrame fa)) =
          s.vm.tableAt as (l1Index (pageFrame fa)) := rfl
      rw [hat,registerTable_self]
      refine ⟨own,hh.mark i,s.vm.sameFrames_mark i,fun h _ => h,fun hfits _ => ?_⟩
      simp [tableFits,hsp,ha,hlv,hpos,hk] at hfits
    · rw [hp] at hins
      by_cases halign : pageFrame (s.vm.coremap.frameAddr i) = s.vm.coremap.frameAddr i
      · obtain ⟨-,tlb,-,hok⟩ := installPage_mapped vm1 halign
        rw [hok] at hins
        cases hins
        exact ⟨own',hg.held.setTlb tlb,hg.frames,fun h _ => hg.kept h,fun _ h => hg.tight h⟩
      · rw [installPage_misaligned vm1 halign] at hins
        cases hins

end Faults

theorem lvone_asDefineRegion (sp : AddrSpace) (vaddr sz counter : Nat) :
    (asDefineRegion sp vaddr sz counter).2.lvone = sp.lvone := by
  simp only [asDefineRegion]
  split
  · split <;> rfl
  · split
    · split <;> rfl
    · rfl

theorem lvone_sysSbrk (size : Int) (sp : AddrSpace) : (sysSbrk size sp).2.lvone = sp.lvone := by
  simp only [sysSbrk]
  split
  · rfl
  · split <;> rfl

theorem Held.step {s s' : Sys} {own : Nat → Option Owner} {op : VmOp} (hh : Held s own)
    (hd : op.disciplined) (hstep : vmStep s op = some s') : ∃ own', Evolves s own op s' own' := by
  cases op with
  | allocKpages npages => exact hh.evolves_alloc hd hstep
  | freeKpages a => exact hh.evolves_free hstep
  | asCreate junk => exact hh.evolves_create hd hstep
  | asDestroy as => exact hh.evolves_destroy hstep
  | asDefineRegion as vaddr sz counter =>
    exact hh.evolves_edit (fun sp => lvone_asDefineRegion sp vaddr sz counter) hstep
  | asDefineStack as => exact hh.evolves_edit (f := asDefineStack) (fun _ => rfl) hstep
  | sysSbrk as size => exact hh.evolves_edit (lvone_sysSbrk size) hstep
  | asActivate =>
    cases hstep
    exact ⟨own,hh.setTlb _,Coremap.SameFrames.refl _,fun h _ => h,fun _ h => h⟩
  | vmFault as ft fa random => exact hh.evolves_fault hstep

theorem Held.run {s s' : Sys} {own : Nat → Option Owner} {ops : List VmOp} (hh : Held s own)
    (hd : ∀ op ∈ ops, op.disciplined) (hrun : Run.exec vmStep s ops = some s') :
    ∃ own', Held s' own' := by
  refine Run.invariant (I := fun s => ∃ own, Held s own) ?_ ⟨own,hh⟩
    (Run.along_of_forall hd) hrun
  rintro s op t ⟨own,hh⟩ hd hstep
  obtain ⟨own',he⟩ := hh.step hd hstep
  exact ⟨own',he.held⟩

end OS161
