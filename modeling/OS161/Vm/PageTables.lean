import OS161.Vm.Frames

namespace OS161

open Function

open Holding

namespace Vm

def mark (vm : Vm) (i : Nat) : Vm :=
  vm.setEntry i { vm.coremap.entries i with allocated := 1 }

theorem mark_allocated (vm : Vm) (i : Nat) : ((vm.mark i).coremap.entries i).allocated = 1 := by
  simp only [mark,setEntry,setCoremap,coremap,Coremap.entries_setEntry,update_self]

theorem sameFrames_mark (vm : Vm) (i : Nat) : vm.coremap.SameFrames (vm.mark i).coremap :=
  Coremap.sameFrames_setEntry _ _ _

def tableAt (vm : Vm) (as l1 : Nat) : Option Nat :=
  if l1 < level1Size then (vm.spaces as).bind fun sp => sp.lvone l1 else none

theorem tableAt_of_space {vm : Vm} {as l1 : Nat} {sp : AddrSpace} (hs : vm.spaces as = some sp)
    (hl : l1 < level1Size) : vm.tableAt as l1 = sp.lvone l1 := by
  simp [tableAt,hs,hl]

theorem tableAt_of_none {vm : Vm} {as l1 : Nat} (hs : vm.spaces as = none) :
    vm.tableAt as l1 = none := by
  simp [tableAt,hs]

theorem tableAt_some {vm : Vm} {as l1 t : Nat} (h : vm.tableAt as l1 = some t) :
    ∃ sp, vm.spaces as = some sp ∧ l1 < level1Size ∧ sp.lvone l1 = some t := by
  have hl : l1 < level1Size := by
    by_contra hl
    simp [tableAt,hl] at h
  cases hs : vm.spaces as with
  | none =>
    rw [tableAt_of_none hs] at h
    cases h
  | some sp => exact ⟨sp,rfl,hl,(tableAt_of_space hs hl).symm.trans h⟩

theorem tableAt_congr {vm vm' : Vm} {as : Nat}
    (h : (vm'.spaces as).map (·.lvone) = (vm.spaces as).map (·.lvone)) (l1 : Nat) :
    vm'.tableAt as l1 = vm.tableAt as l1 := by
  unfold tableAt
  cases hv : vm.spaces as <;> cases hv' : vm'.spaces as <;> simp_all

theorem tableAt_linkTable {vm : Vm} {as l1 t : Nat} {sp : AddrSpace} (hs : vm.spaces as = some sp)
    (hl : l1 < level1Size) (as' l1' : Nat) :
    (linkTable vm as sp l1 t).tableAt as' l1' =
      if as' = as ∧ l1' = l1 then some t else vm.tableAt as' l1' := by
  by_cases has : as' = as
  · subst has
    by_cases hl' : l1' = l1
    · subst hl'
      simp [tableAt,linkTable,setSpace,hl]
    · simp [tableAt,linkTable,setSpace,hl',hs]
  · simp [tableAt,linkTable,setSpace,has]

end Vm

structure Mapped (vm : Vm) (live : Nat → Option Kind) (own : Nat → Option Owner) : Prop where
  page : ∀ {i as l1 l2}, own i = some (.page as l1 l2) →
    ∃ t, vm.tableAt as l1 = some t ∧ l2 < level2Size ∧
      vm.tables t l2 = ⟨some i, vm.coremap.frameAddr i % 2 ^ 20, true⟩ ∧
      (vm.coremap.entries i).as = some as ∧ (vm.coremap.entries i).pe = some (t, l2)
  entry : ∀ {as l1 t l2 i}, vm.tableAt as l1 = some t → l2 < level2Size →
    (vm.tables t l2).coremapPtr = some i → own i = some (.page as l1 l2)
  empty : ∀ {as l1 t l2}, vm.tableAt as l1 = some t → l2 < level2Size →
    (vm.tables t l2).coremapPtr = none → (vm.tables t l2).valid = false
  space : ∀ {as}, vm.spaces as ≠ none → live as = some .space
  table : ∀ {as l1 t}, vm.tableAt as l1 = some t → live t = some .table
  inj : ∀ {as as' l1 l1' t}, vm.tableAt as l1 = some t → vm.tableAt as' l1' = some t →
    as = as' ∧ l1 = l1'

section Mapped
variable {vm vm' : Vm} {live live' : Nat → Option Kind} {own own' : Nat → Option Owner}
  (hm : Mapped vm live own)
include hm

theorem Mapped.valid_iff {as l1 t l2 : Nat} (ht : vm.tableAt as l1 = some t)
    (hl : l2 < level2Size) :
    (vm.tables t l2).valid = true ↔ ∃ i, own i = some (.page as l1 l2) := by
  constructor
  · intro hv
    cases hc : (vm.tables t l2).coremapPtr with
    | none => simp [hm.empty ht hl hc] at hv
    | some i => exact ⟨i,hm.entry ht hl hc⟩
  · rintro ⟨i,ho⟩
    obtain ⟨t',ht',-,hpe,-⟩ := hm.page ho
    rw [ht,Option.some_inj] at ht'
    rw [ht',hpe]

theorem Mapped.unmapped {as l1 t l2 : Nat} (ht : vm.tableAt as l1 = some t)
    (hl : l2 < level2Size) (hv : (vm.tables t l2).valid = false) :
    (vm.tables t l2).coremapPtr = none := by
  cases hc : (vm.tables t l2).coremapPtr with
  | none => rfl
  | some i =>
    have := (hm.valid_iff ht hl).mpr ⟨i,hm.entry ht hl hc⟩
    rw [hv] at this
    cases this

theorem Mapped.restrict (keep : Nat → Prop)
    (htab : ∀ as l1 t, vm'.tableAt as l1 = some t ↔ keep as ∧ vm.tableAt as l1 = some t)
    (hkeep : ∀ as l1 t, keep as → vm.tableAt as l1 = some t → vm'.tables t = vm.tables t)
    (haddr : vm'.coremap.frameAddr = vm.coremap.frameAddr)
    (hent : ∀ {i as l1 l2}, own i = some (.page as l1 l2) → keep as →
      (vm'.coremap.entries i).as = (vm.coremap.entries i).as ∧
      (vm'.coremap.entries i).pe = (vm.coremap.entries i).pe)
    (hown : ∀ {i as l1 l2}, own' i = some (.page as l1 l2) ↔
      keep as ∧ own i = some (.page as l1 l2))
    (hspace : ∀ {as}, vm'.spaces as ≠ none → live' as = some .space)
    (htable : ∀ {t}, live t = some .table → live' t = some .table) :
    Mapped vm' live' own' where
  page h := by
    obtain ⟨hk,ho⟩ := hown.mp h
    obtain ⟨t,ht,hl,hpe,has,hlink⟩ := hm.page ho
    obtain ⟨has',hpe'⟩ := hent ho hk
    refine ⟨t,(htab _ _ _).mpr ⟨hk,ht⟩,hl,?_,has'.trans has,hpe'.trans hlink⟩
    rw [hkeep _ _ _ hk ht,haddr,hpe]
  entry ht hl hc := by
    obtain ⟨hk,ht⟩ := (htab _ _ _).mp ht
    rw [hkeep _ _ _ hk ht] at hc
    exact hown.mpr ⟨hk,hm.entry ht hl hc⟩
  empty ht hl hc := by
    obtain ⟨hk,ht⟩ := (htab _ _ _).mp ht
    rw [hkeep _ _ _ hk ht] at hc ⊢
    exact hm.empty ht hl hc
  space := hspace
  table ht := htable (hm.table ((htab _ _ _).mp ht).2)
  inj ht ht' := hm.inj ((htab _ _ _).mp ht).2 ((htab _ _ _).mp ht').2

theorem Mapped.mono (htab : ∀ as l1, vm'.tableAt as l1 = vm.tableAt as l1)
    (htables : vm'.tables = vm.tables)
    (haddr : vm'.coremap.frameAddr = vm.coremap.frameAddr)
    (hent : ∀ {i as l1 l2}, own i = some (.page as l1 l2) →
      (vm'.coremap.entries i).as = (vm.coremap.entries i).as ∧
      (vm'.coremap.entries i).pe = (vm.coremap.entries i).pe)
    (hown : ∀ {i as l1 l2}, own' i = some (.page as l1 l2) ↔ own i = some (.page as l1 l2))
    (hspace : ∀ {as}, vm'.spaces as ≠ none → live' as = some .space)
    (htable : ∀ {t}, live t = some .table → live' t = some .table) :
    Mapped vm' live' own' :=
  hm.restrict (fun _ => True) (by simp [htab]) (fun _ _ _ _ _ => by rw [htables]) haddr
    (fun ho _ => hent ho) (hown.trans (iff_of_eq (true_and _)).symm) hspace htable

theorem Mapped.addTable {as l1 t : Nat}
    (htab : ∀ as' l1', vm'.tableAt as' l1' =
      if as' = as ∧ l1' = l1 then some t else vm.tableAt as' l1')
    (hnone : vm.tableAt as l1 = none) (hfresh : live t = none)
    (htables : vm'.tables = Function.update vm.tables t lv2Empty)
    (haddr : vm'.coremap.frameAddr = vm.coremap.frameAddr)
    (hent : ∀ {i as l1 l2}, own i = some (.page as l1 l2) →
      (vm'.coremap.entries i).as = (vm.coremap.entries i).as ∧
      (vm'.coremap.entries i).pe = (vm.coremap.entries i).pe)
    (hown : ∀ {i as l1 l2}, own' i = some (.page as l1 l2) ↔ own i = some (.page as l1 l2))
    (hspaces : ∀ {as}, vm'.spaces as ≠ none → vm.spaces as ≠ none) :
    Mapped vm' (Function.update live t (some .table)) own' := by
  have hold : ∀ {as' l1' t'}, vm.tableAt as' l1' = some t' → t' ≠ t := fun ht' heq => by
    have := hm.table ht'
    rw [heq,hfresh] at this
    cases this
  have hcase : ∀ {as' l1' t'}, vm'.tableAt as' l1' = some t' →
      (as' = as ∧ l1' = l1 ∧ t' = t) ∨ (vm.tableAt as' l1' = some t' ∧ t' ≠ t) := by
    intro as' l1' t' ht'
    rw [htab] at ht'
    split at ht'
    case isTrue h => exact Or.inl ⟨h.1,h.2,(Option.some_inj.mp ht').symm⟩
    case isFalse h => exact Or.inr ⟨ht',hold ht'⟩
  refine ⟨fun {i as' l1' l2} h => ?_,fun {as' l1' t' l2 i} ht hl hc => ?_,
    fun {as' l1' t' l2} ht hl hc => ?_,fun {as'} h => ?_,fun {as' l1' t'} ht => ?_,
    fun {as' as'' l1' l1'' t'} ht ht' => ?_⟩
  · have ho := hown.mp h
    obtain ⟨t',ht',hl,hpe,has,hlink⟩ := hm.page ho
    obtain ⟨has',hpe'⟩ := hent ho
    refine ⟨t',?_,hl,?_,has'.trans has,hpe'.trans hlink⟩
    · rw [htab,if_neg,ht']
      rintro ⟨rfl,rfl⟩
      rw [hnone] at ht'
      cases ht'
    · rw [htables,update_of_ne (hold ht'),haddr,hpe]
  · rcases hcase ht with ⟨-,-,rfl⟩ | ⟨ht',hne⟩
    · rw [htables,update_self] at hc
      cases hc
    · rw [htables,update_of_ne hne] at hc
      exact hown.mpr (hm.entry ht' hl hc)
  · rcases hcase ht with ⟨-,-,rfl⟩ | ⟨ht',hne⟩
    · rw [htables,update_self]
      rfl
    · rw [htables,update_of_ne hne] at hc ⊢
      exact hm.empty ht' hl hc
  · have hs := hm.space (hspaces h)
    have hne : as' ≠ t := fun heq => by
      rw [heq,hfresh] at hs
      cases hs
    rwa [update_of_ne hne]
  · rcases hcase ht with ⟨-,-,rfl⟩ | ⟨ht',hne⟩
    · rw [update_self]
    · rw [update_of_ne hne]
      exact hm.table ht'
  · rcases hcase ht with ⟨rfl,rfl,rfl⟩ | ⟨h1,hne⟩
    · rcases hcase ht' with ⟨rfl,rfl,-⟩ | ⟨-,hne⟩
      · exact ⟨rfl,rfl⟩
      · exact absurd rfl hne
    · rcases hcase ht' with ⟨-,-,rfl⟩ | ⟨h2,-⟩
      · exact absurd rfl hne
      · exact hm.inj h1 h2

theorem Mapped.link {as l1 t l2 i : Nat} (ht : vm.tableAt as l1 = some t)
    (hl : l2 < level2Size) (hnone : (vm.tables t l2).coremapPtr = none) (hown : own i = none) :
    Mapped (linkPage vm as t l2 i) live (grant own (.page as l1 l2) (· = i)) := by
  have htab : ∀ as' l1', (linkPage vm as t l2 i).tableAt as' l1' = vm.tableAt as' l1' :=
    fun _ _ => rfl
  have htables : ∀ t' l2', (linkPage vm as t l2 i).tables t' l2' =
      if t' = t ∧ l2' = l2 then ⟨some i,vm.coremap.frameAddr i % 2 ^ 20,true⟩
      else vm.tables t' l2' := by
    intro t' l2'
    simp only [linkPage,Vm.setEntry,Vm.setCoremap,Vm.setPage,update_apply]
    by_cases h1 : t' = t <;> by_cases h2 : l2' = l2 <;> simp [h1,h2]
  have hent : ∀ j, (linkPage vm as t l2 i).coremap.entries j =
      if j = i then { vm.coremap.entries i with continuous := 1, as := some as, pe := some (t, l2) }
      else vm.coremap.entries j := by
    intro j
    simp only [linkPage,Vm.setEntry,Vm.setCoremap,Vm.setPage,Vm.coremap,
      Coremap.entries_setEntry,update_apply]
  refine ⟨fun {j as' l1' l2'} h => ?_,fun {as' l1' t' l2' j} ht' hl' hc => ?_,
    fun {as' l1' t' l2'} ht' hl' hc => ?_,hm.space,hm.table,hm.inj⟩
  · rcases grant_eq_some.mp h with ⟨rfl,heq⟩ | ⟨hj,ho⟩
    · obtain ⟨rfl,rfl,rfl⟩ := Owner.page.inj heq
      refine ⟨t,ht,hl,?_,?_,?_⟩
      · rw [htables,if_pos ⟨rfl,rfl⟩]
        rfl
      · rw [hent,if_pos rfl]
      · rw [hent,if_pos rfl]
    · obtain ⟨t',ht',hl',hpe,has,hlink⟩ := hm.page ho
      refine ⟨t',ht',hl',?_,?_,?_⟩
      · rw [htables,if_neg,hpe]
        · rfl
        · rintro ⟨rfl,rfl⟩
          rw [hpe] at hnone
          cases hnone
      · rw [hent,if_neg hj,has]
      · rw [hent,if_neg hj,hlink]
  · rw [htab] at ht'
    rw [htables] at hc
    split at hc
    case isTrue heq =>
      obtain ⟨rfl,rfl⟩ := heq
      obtain ⟨rfl,rfl⟩ := hm.inj ht ht'
      exact grant_of_pos (Option.some_inj.mp hc).symm
    case isFalse =>
      have ho := hm.entry ht' hl' hc
      rw [grant_of_neg]
      · exact ho
      · rintro rfl
        rw [hown] at ho
        cases ho
  · rw [htab] at ht'
    rw [htables] at hc ⊢
    split at hc
    case isTrue => cases hc
    case isFalse hne =>
      rw [if_neg hne]
      exact hm.empty ht' hl' hc

end Mapped

def pointsTo (table : Lv2pt) (i : Nat) : Prop := ∃ j < level2Size, (table j).coremapPtr = some i

theorem freeUserPage_eq (c : Coremap) (pe : PageEntry) :
    freeUserPage c pe = { c with
      entries := fun i =>
        if pe.coremapPtr = some i then ⟨0, 0, none, none⟩ else c.entries i } := by
  unfold freeUserPage
  cases hc : pe.coremapPtr with
  | none => simp
  | some k =>
    simp only [Coremap.setEntry,Option.some.injEq,Coremap.mk.injEq,true_and]
    funext i
    rw [update_apply]
    simp only [eq_comm]

theorem foldl_freeUserPage_eq (l : List Nat) (c : Coremap) (table : Lv2pt) :
    l.foldl (fun c j => freeUserPage c (table j)) c = { c with
      entries := fun i =>
        if ∃ j, j ∈ l ∧ (table j).coremapPtr = some i then ⟨0, 0, none, none⟩
        else c.entries i } := by
  induction l generalizing c with
  | nil => simp
  | cons j l ih =>
    rw [List.foldl_cons,ih,freeUserPage_eq]
    simp only [Coremap.mk.injEq,true_and]
    funext i
    by_cases h0 : (table j).coremapPtr = some i <;> simp [h0]

open Classical in
theorem freeUserTable_eq (c : Coremap) (table : Lv2pt) :
    freeUserTable c table = { c with
      entries := fun i =>
        if pointsTo table i then ⟨0, 0, none, none⟩ else c.entries i } := by
  rw [freeUserTable,foldl_freeUserPage_eq]
  simp only [List.mem_range,Coremap.mk.injEq,true_and]
  funext i
  by_cases h : pointsTo table i
  · exact (if_pos h).trans (if_pos h).symm
  · exact (if_neg h).trans (if_neg h).symm

section
variable (sp : AddrSpace) (l : List Nat) (vm : Vm)

theorem destroy_spaces : (l.foldl (destroyAt sp) vm).spaces = vm.spaces := by
  induction l generalizing vm with
  | nil => rfl
  | cons l1 l ih =>
    rw [List.foldl_cons,ih]
    unfold destroyAt
    split <;> simp only [destroyTable]

theorem destroy_frames : vm.coremap.SameFrames (l.foldl (destroyAt sp) vm).coremap := by
  induction l generalizing vm with
  | nil => exact Coremap.SameFrames.refl _
  | cons l1 l ih =>
    refine Coremap.SameFrames.trans ?_ (ih _)
    unfold destroyAt
    split
    · exact Coremap.SameFrames.refl _
    · simp only [destroyTable,freeUserTable_eq]
      exact ⟨rfl,rfl,rfl⟩

theorem destroy_tables {t : Nat} (ht : ∀ l1 ∈ l, sp.lvone l1 ≠ some t) :
    (l.foldl (destroyAt sp) vm).tables t = vm.tables t := by
  induction l generalizing vm with
  | nil => rfl
  | cons l1 l ih =>
    rw [List.foldl_cons,ih _ fun l1' h => ht l1' (List.mem_cons_of_mem _ h)]
    unfold destroyAt
    split
    · rfl
    case h_2 t' heq =>
      have hne : t ≠ t' := fun h => ht l1 List.mem_cons_self (h ▸ heq)
      simp only [destroyTable,update_of_ne hne]

theorem pointsTo_destroyTable {vm : Vm} {i t t' : Nat} (hno : ¬ pointsTo (vm.tables t) i) :
    pointsTo ((destroyTable vm t).tables t') i ↔ pointsTo (vm.tables t') i := by
  by_cases ht : t' = t
  · subst ht
    refine iff_of_false ?_ hno
    rintro ⟨j,hj,hc⟩
    simp only [destroyTable,update_self,wipeTable] at hc
    split at hc
    case isTrue => cases hc
    case isFalse hn =>
      refine hn ⟨hj,fun hc' => ?_⟩
      rw [hc'] at hc
      cases hc
  · simp only [destroyTable,update_of_ne ht]

open Classical in
theorem destroy_entries (i : Nat) : (l.foldl (destroyAt sp) vm).coremap.entries i =
    if ∃ l1, l1 ∈ l ∧ ∃ t, sp.lvone l1 = some t ∧ pointsTo (vm.tables t) i then
      ⟨0, 0, none, none⟩
    else vm.coremap.entries i := by
  induction l generalizing vm with
  | nil => simp
  | cons l1 l ih =>
    rw [List.foldl_cons,ih]
    cases hl1 : sp.lvone l1 with
    | none => simp [destroyAt,hl1]
    | some t =>
      have hat : destroyAt sp vm l1 = destroyTable vm t := by simp [destroyAt,hl1]
      have hent : (destroyTable vm t).coremap.entries i =
          if pointsTo (vm.tables t) i then ⟨0,0,none,none⟩ else vm.coremap.entries i := by
        simp only [destroyTable,freeUserTable_eq]
      rw [hat,hent]
      by_cases h0 : pointsTo (vm.tables t) i
      · rw [if_pos h0,ite_self,if_pos ⟨l1,List.mem_cons_self,t,hl1,h0⟩]
      · simp only [pointsTo_destroyTable h0,List.mem_cons,exists_eq_or_imp,hl1,
          Option.some.injEq,exists_eq_left',h0,false_or,if_false]

end

section
variable (vm : Vm) (sp : AddrSpace)

theorem destroyTables_frames : vm.coremap.SameFrames (destroyTables vm sp).coremap := by
  unfold destroyTables
  exact destroy_frames sp _ vm

theorem destroyTables_spaces : (destroyTables vm sp).spaces = vm.spaces := by
  exact destroy_spaces sp _ vm

theorem destroyTables_tables {t : Nat} (ht : ∀ l1 < level1Size, sp.lvone l1 ≠ some t) :
    (destroyTables vm sp).tables t = vm.tables t := by
  unfold destroyTables
  exact destroy_tables sp _ vm fun l1 h => ht l1 (List.mem_range.mp h)

open Classical in
theorem destroyTables_entries (i : Nat) : (destroyTables vm sp).coremap.entries i =
    if ∃ l1 < level1Size, ∃ t, sp.lvone l1 = some t ∧ pointsTo (vm.tables t) i then
      ⟨0, 0, none, none⟩
    else vm.coremap.entries i := by
  unfold destroyTables
  rw [destroy_entries]
  simp only [List.mem_range]

end

end OS161
