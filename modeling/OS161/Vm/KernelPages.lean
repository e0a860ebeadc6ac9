import OS161.Vm.Copy
import OS161.Vm.Bootstrap

namespace OS161

open Function

open Holding

def headLength (c : Coremap) (a : Nat) : Int := (c.entries (kpageIndex c a)).continuous

def VmOp.asks : VmOp → Nat
  | .allocKpages npages => u32 npages
  | .asCreate _ => 1
  | _ => 0

structure KeepsRun (s s' : Sys) (op : VmOp) (a : Nat) (k : Kind) : Prop where
  step : (s.live a = none ∧ headLength s'.vm.coremap a = op.asks) ∨
    s.live a = some k ∧ headLength s'.vm.coremap a = headLength s.vm.coremap a

theorem registerTable_live {live : Nat → Option Kind} {old new : Option Nat} {a : Nat} {k : Kind}
    (h : registerTable live old new a = some k) (hk : k ≠ .table) : live a = some k := by
  cases old with
  | some t => exact h
  | none =>
    cases new with
    | none => exact h
    | some t =>
      have hne : a ≠ t := by
        rintro rfl
        rw [registerTable,update_self,Option.some_inj] at h
        exact hk h.symm
      rwa [registerTable,update_of_ne hne] at h

section Runs
variable {s s' : Sys} {own : Nat → Option Owner} {a : Nat} {k : Kind} (hh : Held s own)
include hh

theorem Held.head {a : Nat} {k : Kind} (hk : s.live a = some k) :
    ∃ h < s.vm.coremap.count, kpageIndex s.vm.coremap a = h ∧ own h = some (.kernel a) ∧
      s.vm.busy h := by
  obtain ⟨h,n,haddr,hn,hle,-,hrun⟩ := hh.ledger.run hk
  have hlt : h < s.vm.coremap.count := by omega
  have hown := (hrun h).mpr (by omega)
  exact ⟨h,hlt,by rw [haddr,Coremap.kpageIndex_kvaddr hh.ledger.sane hlt],hown,
    (hh.ledger.bound hown).2⟩

theorem Held.keeps_entry {c : Coremap} (hframes : s.vm.coremap.SameFrames c) {a : Nat} {k : Kind}
    (hk : s.live a = some k)
    (hsame : ∀ {h}, own h = some (.kernel a) → s.vm.busy h →
      (c.entries h).continuous = (s.vm.coremap.entries h).continuous) :
    headLength c a = headLength s.vm.coremap a := by
  obtain ⟨h,-,hidx,hown,hbusy⟩ := hh.head hk
  have hidx' : kpageIndex c a = h := by
    rw [← hidx]
    unfold kpageIndex
    rw [hframes.freePagesStr]
  unfold headLength
  rw [hidx,hidx']
  exact hsame hown hbusy

theorem Held.keeps_take {start n : Nat} (hn : 0 < n) (hle : start + n ≤ s.vm.coremap.count)
    (hfree : ∀ k < n, (s.vm.coremap.entries (start + k)).allocated = 0) {kind k : Kind}
    (hk : Function.update s.live (s.vm.coremap.kvaddr start) (some kind) a = some k) :
    (s.live a = none ∧ headLength (s.vm.coremap.takeRun start n) a = n) ∨
      s.live a = some k ∧
        headLength (s.vm.coremap.takeRun start n) a = headLength s.vm.coremap a := by
  have hframes := s.vm.coremap.sameFrames_takeRun start n
  have hzero : (s.vm.coremap.entries start).allocated = 0 := hfree 0 hn
  have hlt : start < s.vm.coremap.count := by omega
  have hnew : s.live (s.vm.coremap.kvaddr start) = none := by
    refine hh.ledger.fresh hlt ?_
    rw [hzero]
    decide
  rcases eq_or_ne a (s.vm.coremap.kvaddr start) with heq | hne
  · rw [heq]
    refine .inl ⟨hnew,?_⟩
    have hidx : kpageIndex (s.vm.coremap.takeRun start n) (s.vm.coremap.kvaddr start) = start := by
      rw [← hframes.kvaddr]
      exact Coremap.kpageIndex_kvaddr (hframes.sane hh.ledger.sane) (hframes.count ▸ hlt)
    unfold headLength
    rw [hidx,Coremap.takeRun_continuous,if_pos rfl]
  · rw [update_of_ne hne] at hk
    refine .inr ⟨hk,hh.keeps_entry hframes hk fun {h} _ hbusy => ?_⟩
    rw [Coremap.takeRun_continuous,if_neg]
    rintro rfl
    exact absurd (hbusy.symm.trans hzero) (by decide)

theorem Held.keeps_alloc {npages : Int} (hd : u32 npages ≠ 0)
    (hstep : vmStep s (.allocKpages npages) = some s') (hk : s'.live a = some k) :
    KeepsRun s s' (.allocKpages npages) a k := by
  simp only [vmStep] at hstep
  rcases allocKpages_cases hh.ledger.sane hd with ha | ⟨start,hle,hfree,ha⟩
  · rw [ha,if_pos rfl] at hstep
    cases hstep
    exact ⟨.inr ⟨hk,rfl⟩⟩
  · have hpos : s.vm.coremap.kvaddr start ≠ 0 := by
      rw [Coremap.kvaddr_eq hh.ledger.sane (Nat.lt_of_lt_of_le (by omega) hle)]
      unfold mipsKseg0
      omega
    rw [ha] at hstep
    simp only [if_neg hpos,Option.some.injEq] at hstep
    subst hstep
    dsimp only at hk
    exact ⟨hh.keeps_take (Nat.pos_of_ne_zero hd) hle hfree hk⟩

theorem Held.keeps_free {b : Nat} (hstep : vmStep s (.freeKpages b) = some s')
    (hk : s'.live a = some k) : KeepsRun s s' (.freeKpages b) a k := by
  obtain ⟨hlive,⟨⟩⟩ := Option.ite_none_right_eq_some.mp hstep
  dsimp only at hk
  have hne : a ≠ b := fun heq => by
    rw [heq,update_self] at hk
    cases hk
  rw [update_of_ne hne] at hk
  refine ⟨.inr ⟨hk,hh.keeps_entry (sameFrames_freeKpages _ _) hk fun hown _ => ?_⟩⟩
  rw [(hh.ledger.free_entries rfl hlive _).2 fun h => hne (by
    rw [hown] at h
    exact Owner.kernel.inj (Option.some_inj.mp h))]

theorem Held.keeps_create {junk : AddrSpace} (hstep : vmStep s (.asCreate junk) = some s')
    (hk : s'.live a = some k) : KeepsRun s s' (.asCreate junk) a k := by
  simp only [vmStep] at hstep
  rcases asCreate_cases hh.ledger.sane junk with hfull | ⟨start,sp,hlt,hfree,-,hgot⟩
  · rw [hfull] at hstep
    cases hstep
    exact ⟨.inr ⟨hk,rfl⟩⟩
  · rw [hgot] at hstep
    cases hstep
    dsimp only at hk
    exact ⟨hh.keeps_take Nat.one_pos hlt (fun k hk => by rwa [Nat.lt_one_iff.mp hk]) hk⟩

theorem Held.destroyed_head {as : Nat} {sp : AddrSpace} (hsp : s.vm.spaces as = some sp)
    (hk : s.live a = some k) :
    headLength (destroyTables s.vm sp).coremap a = headLength s.vm.coremap a := by
  refine hh.keeps_entry (destroyTables_frames s.vm sp) hk fun hown _ => ?_
  rw [(hh.destroy_entry hsp _).2]
  rintro ⟨l1,l2,hpage⟩
  rw [hown] at hpage
  cases hpage

theorem Held.keeps_destroy {as : Nat} (hstep : vmStep s (.asDestroy as) = some s')
    (hk : s'.live a = some k) : KeepsRun s s' (.asDestroy as) a k := by
  simp only [vmStep,Option.map_eq_some_iff] at hstep
  obtain ⟨sp,hsp,rfl⟩ := hstep
  dsimp only at hk
  have hne : a ≠ as := fun heq => by
    rw [heq,update_self] at hk
    cases hk
  rw [update_of_ne hne] at hk
  have hlive : s.live as = some .space := hh.mapped.space (by rw [hsp]; simp)
  have hledger := hh.destroyed_ledger hsp
  refine ⟨.inr ⟨hk,hh.keeps_entry
    ((destroyTables_frames s.vm sp).trans (sameFrames_freeKpages _ _)) hk fun {h} hown _ => ?_⟩⟩
  have hkept : release own (Owner.pageOf as) h = some (.kernel a) :=
    release_eq_some.mpr ⟨hown,id⟩
  have hfree := (hledger.free_entries rfl hlive h).2 fun heq => hne (by
    rw [hkept] at heq
    exact Owner.kernel.inj (Option.some_inj.mp heq))
  have hent := (hh.destroy_entry hsp h).2 (by
    rintro ⟨l1,l2,hpage⟩
    rw [hown] at hpage
    cases hpage)
  exact congrArg CoremapEntry.continuous (hfree.trans hent)

theorem Held.keeps_fault {as : Option Nat} {ft : FaultType} {fa random : Nat}
    (hstep : vmStep s (.vmFault as ft fa random) = some s') (hk : s'.live a = some k)
    (htable : k ≠ .table) : KeepsRun s s' (.vmFault as ft fa random) a k := by
  cases as with
  | none =>
    rw [fault_none hstep] at hk ⊢
    exact ⟨.inr ⟨hk,rfl⟩⟩
  | some as =>
    obtain ⟨sp,e,vm',hfa,-,hsp,hins,rfl⟩ := fault_some hstep
    have hold : s.live a = some k := registerTable_live hk htable
    refine ⟨.inr ⟨hold,?_⟩⟩
    rcases faultPaddr_took hh.ledger.sane (hh.placed as) hsp (l1Index_lt hfa) with
      ⟨-,ret,hp,-⟩ | ⟨-,i,ret,vm₁,hp,htook⟩
    · rw [hp] at hins
      obtain ⟨tlb,rfl⟩ := installPage_vm hins
      rfl
    · rw [hp] at hins
      obtain ⟨tlb,rfl⟩ := installPage_vm hins
      refine hh.keeps_entry htook.grows.frames hold fun {h} _ hbusy => ?_
      refine (htook.grows.kept hbusy).2 fun heq => ?_
      exact absurd ((heq ▸ hbusy : s.vm.busy i).symm.trans htook.free) (by decide)

theorem Held.keeps_run {op : VmOp} (hd : op.disciplined) (hstep : vmStep s op = some s')
    (hk : s'.live a = some k) (htable : k ≠ .table) : KeepsRun s s' op a k := by
  have hedit : ∀ {as f}, s.editSpace as f = some s' → KeepsRun s s' op a k := by
    intro as f hedit
    obtain ⟨sp,-,rfl⟩ := Option.map_eq_some_iff.mp hedit
    exact ⟨.inr ⟨hk,rfl⟩⟩
  cases op with
  | allocKpages npages => exact hh.keeps_alloc hd hstep hk
  | freeKpages b => exact hh.keeps_free hstep hk
  | asCreate junk => exact hh.keeps_create hstep hk
  | asDestroy as => exact hh.keeps_destroy hstep hk
  | asDefineRegion as vaddr sz counter => exact hedit hstep
  | asDefineStack as => exact hedit hstep
  | sysSbrk as size => exact hedit hstep
  | asActivate =>
    cases hstep
    exact ⟨.inr ⟨hk,rfl⟩⟩
  | vmFault as ft fa random => exact hh.keeps_fault hstep hk htable

theorem Held.lv2Table_fresh {as l1 t : Nat} {sp : AddrSpace} {vm' : Vm}
    (hlv : sp.lvone l1 = none) (h : lv2Table s.vm as sp l1 = some (t, vm')) :
    s.live t = none ∧ ∃ phys, vm' = linkTable { s.vm with phys := phys } as sp l1 t := by
  unfold lv2Table at h
  rw [hlv] at h
  dsimp only at h
  split at h
  · cases h
  · obtain ⟨ht,rfl⟩ := Prod.mk.inj (Option.some_inj.mp h)
    refine ⟨?_,_,by rw [ht]⟩
    rcases allocKpages_cases hh.ledger.sane (npages_two ▸ Nat.two_pos.ne') with
      ha | ⟨start,hle,hfree,ha⟩
    · rw [kmallocPages_lv2pt,ha] at ht
      rename_i hpos
      rw [kmallocPages_lv2pt,ha] at hpos
      exact absurd rfl hpos
    · rw [npages_two] at hle hfree
      rw [kmallocPages_lv2pt,ha] at ht
      have hzero : (s.vm.coremap.entries start).allocated = 0 := hfree 0 Nat.two_pos
      rw [← ht]
      exact hh.ledger.fresh (Nat.lt_of_lt_of_le (Nat.lt_add_of_pos_right Nat.two_pos) hle)
        (by rw [hzero]; decide)

theorem Held.faultPaddr_fresh {as fa t : Nat} {sp : AddrSpace} (hsp : s.vm.spaces as = some sp)
    (hl1 : l1Index fa < level1Size) (hnone : s.vm.tableAt as (l1Index fa) = none)
    (hnew : (faultPaddr s.vm as sp fa).2.tableAt as (l1Index fa) = some t) : s.live t = none := by
  have hlv : sp.lvone (l1Index fa) = none := (Vm.tableAt_of_space hsp hl1).symm.trans hnone
  have hinc : (incPage s.vm as sp fa).2.tableAt as (l1Index fa) = some t → s.live t = none := by
    intro h
    unfold incPage at h
    split at h
    · rw [hnone] at h
      cases h
    · rename_i i phys ha
      dsimp only at h
      split at h
      · exact absurd (h.symm.trans hnone) (Option.some_ne_none t)
      · rename_i table vm₁ hlv2
        rcases allocatePhysicalPage_cases s.vm.phys with ⟨hfull,-⟩ | ⟨j,-,-,hgot⟩
        · rw [hfull] at ha
          cases ha
        · rw [hgot] at ha
          obtain ⟨rfl,rfl⟩ := Prod.mk.inj (Option.some_inj.mp ha)
          obtain ⟨hfresh,phys,rfl⟩ := (hh.mark j).lv2Table_fresh hlv hlv2
          have htable := @Vm.tableAt_linkTable { s.vm.mark j with phys := phys } as _ table sp hsp hl1
            as (l1Index fa)
          rw [if_pos ⟨rfl,rfl⟩] at htable
          have heq : table = t := Option.some_inj.mp (htable.symm.trans h)
          rw [← heq]
          exact hfresh
  unfold faultPaddr at hnew
  split at hnew
  · rw [hnone] at hnew
    cases hnew
  · split at hnew
    · refine hinc ?_
      unfold incStack at hnew
      split at hnew
      · rename_i heq
        rw [heq]
        exact hnew
      · rename_i heq
        rw [heq]
        rwa [tableAt_shrinkStack] at hnew
    · exact hinc hnew
    · rw [hnone] at hnew
      cases hnew

theorem Held.keeps_client {op : VmOp} (hd : op.disciplined) (hstep : vmStep s op = some s')
    (hk : s.live a = some .client) (hop : op ≠ .freeKpages a) : s'.live a = some .client := by
  have hne : ∀ {b}, s.live b ≠ some .client → a ≠ b := fun hb heq => hb (heq ▸ hk)
  have hfresh : ∀ {start}, start < s.vm.coremap.count →
      (s.vm.coremap.entries start).allocated = 0 → a ≠ s.vm.coremap.kvaddr start := by
    intro start hlt hzero
    refine hne ?_
    rw [hh.ledger.fresh hlt (by rw [hzero]; decide)]
    exact fun h => by cases h
  have hedit : ∀ {as f}, s.editSpace as f = some s' → s'.live a = some .client := by
    intro as f hedit
    obtain ⟨sp,-,rfl⟩ := Option.map_eq_some_iff.mp hedit
    exact hk
  cases op with
  | allocKpages npages =>
    simp only [vmStep] at hstep
    rcases allocKpages_cases hh.ledger.sane hd with ha | ⟨start,hle,hfree,ha⟩
    · rw [ha,if_pos rfl] at hstep
      cases hstep
      exact hk
    · rw [ha] at hstep
      cases hstep
      have hpos : 0 < u32 npages := Nat.pos_of_ne_zero hd
      have ha := hfresh (Nat.lt_of_lt_of_le (Nat.lt_add_of_pos_right hpos) hle) (hfree 0 hpos)
      dsimp only
      split
      · exact hk
      · rwa [update_of_ne ha]
  | freeKpages b =>
    obtain ⟨-,⟨⟩⟩ := Option.ite_none_right_eq_some.mp hstep
    have hab : a ≠ b := fun heq => hop (by rw [heq])
    exact (update_of_ne hab _ _).trans hk
  | asCreate junk =>
    simp only [vmStep] at hstep
    rcases asCreate_cases hh.ledger.sane junk with hfull | ⟨start,sp,hlt,hfree,-,hgot⟩
    · rw [hfull] at hstep
      cases hstep
      exact hk
    · rw [hgot] at hstep
      cases hstep
      have ha := hfresh hlt hfree
      dsimp only
      rwa [update_of_ne ha]
  | asDestroy as =>
    simp only [vmStep,Option.map_eq_some_iff] at hstep
    obtain ⟨sp,hsp,rfl⟩ := hstep
    have hlive : s.live as = some .space := hh.mapped.space (by rw [hsp]; simp)
    refine (update_of_ne (hne ?_) _ _).trans hk
    rw [hlive]
    exact fun h => by cases h
  | asDefineRegion as vaddr sz counter => exact hedit hstep
  | asDefineStack as => exact hedit hstep
  | sysSbrk as size => exact hedit hstep
  | asActivate =>
    cases hstep
    exact hk
  | vmFault as ft fa random =>
    cases as with
    | none =>
      rw [fault_none hstep]
      exact hk
    | some as =>
      obtain ⟨sp,e,vm',hfa,-,hsp,hins,rfl⟩ := fault_some hstep
      have hpair : installPage (pageFrame fa) random
          ((faultPaddr s.vm as sp (pageFrame fa)).1, (faultPaddr s.vm as sp (pageFrame fa)).2) =
          .ok (e, vm') := hins
      obtain ⟨tlb,rfl⟩ := installPage_vm hpair
      cases hold : s.vm.tableAt as (l1Index (pageFrame fa)) with
      | some t => exact hk
      | none =>
        cases hnew : ({ (faultPaddr s.vm as sp (pageFrame fa)).2 with tlb := tlb } : Vm).tableAt as
            (l1Index (pageFrame fa)) with
        | none => exact hk
        | some t =>
          have ht := hh.faultPaddr_fresh hsp (l1Index_lt hfa) hold hnew
          refine (update_of_ne (hne ?_) _ _).trans hk
          rw [ht]
          exact fun h => by cases h

end Runs

structure FreesInside (c : Coremap) (a npages : Nat) : Prop where
  head : kpageIndex c a < c.numofpage
  cleared : ∀ j : Nat, (j : Int) < headLength c a → kpageIndex c a + j < c.numofpage ∧
    a ≤ c.kvaddr (kpageIndex c a + j) ∧ c.kvaddr (kpageIndex c a + j) + pageSize ≤ a + npages * pageSize

theorem Coremap.count_le (c : Coremap) : c.count ≤ c.numofpage := by
  unfold count u32
  omega

theorem Ledger.freesInside {c : Coremap} {live : Nat → Option Kind} {own : Nat → Option Owner}
    (hl : Ledger c live own) {a npages : Nat} {k : Kind} (hk : live a = some k)
    (hlen : headLength c a = npages) : FreesInside c a npages := by
  obtain ⟨h,n,haddr,hn,hle,hcont,-⟩ := hl.run hk
  have hcount := c.count_le
  have hidx : kpageIndex c a = h := by
    rw [haddr,Coremap.kpageIndex_kvaddr hl.sane (by omega)]
  have hn' : n = npages := by
    unfold headLength at hlen
    rw [hidx,hcont] at hlen
    exact Int.natCast_inj.mp hlen
  refine ⟨by omega,fun j hj => ?_⟩
  rw [hlen] at hj
  rw [hidx,haddr,Coremap.kvaddr_eq hl.sane (by omega),Coremap.kvaddr_eq hl.sane (by omega)]
  unfold pageSize
  omega

structure OwnsFrames (p p' : Phys) (a n : Nat) : Prop where
  early : p.coremap.coremapStr = 0 → a = p.ram.firstpaddr + mipsKseg0 ∧
    p'.ram.firstpaddr = p.ram.firstpaddr + n * pageSize ∧
    p.ram.firstpaddr + n * pageSize ≤ p.ram.lastpaddr
  late : p.coremap.coremapStr ≠ 0 → ∃ h, a = p.coremap.kvaddr h ∧ h + n ≤ p.coremap.count ∧
    ∀ k < n, (p.coremap.entries (h + k)).allocated = 0 ∧
      (p'.coremap.entries (h + k)).allocated = 1

def NoWrap (p : Phys) (n : Nat) : Prop :=
  p.coremap.coremapStr = 0 → p.ram.firstpaddr + n * pageSize < 2 ^ 32

instance (p : Phys) (n : Nat) : Decidable (NoWrap p n) := inferInstanceAs (Decidable (_ → _))

section OwnsFrames
variable {p : Phys} {npages : Int}

theorem allocKpages_early (hcold : p.coremap.coremapStr = 0) (hram : p.ram.Accepted)
    (hwrap : NoWrap p (u32 npages)) :
    (p.ram.lastpaddr < p.ram.firstpaddr + u32 npages * pageSize ∧
      allocKpages npages p = (0, p)) ∨
    p.ram.firstpaddr + u32 npages * pageSize ≤ p.ram.lastpaddr ∧
      allocKpages npages p =
        (if p.ram.firstpaddr = 0 then 0 else p.ram.firstpaddr + mipsKseg0,
          { p with ram := ⟨p.ram.firstpaddr + u32 npages * pageSize, p.ram.lastpaddr⟩ }) := by
  have hfit := hwrap hcold
  have hsize : u32 ((u32 npages : Int) * (pageSize : Nat)) = u32 npages * pageSize :=
    u32_of_nat (by omega)
  have hend : u32 ((p.ram.firstpaddr : Int) + (u32 npages * pageSize : Nat)) =
      p.ram.firstpaddr + u32 npages * pageSize := u32_of_nat hfit
  have hsteal : getppages (u32 npages) p =
      if p.ram.lastpaddr < p.ram.firstpaddr + u32 npages * pageSize then (0, p)
      else (p.ram.firstpaddr,
        { p with ram := ⟨p.ram.firstpaddr + u32 npages * pageSize,p.ram.lastpaddr⟩ }) := by
    unfold getppages ramStealmem
    rw [if_pos hcold,hsize]
    dsimp only
    rw [hend]
    split <;> rfl
  have htop := hram.top
  unfold allocKpages
  rw [hsteal]
  rcases Nat.lt_or_ge p.ram.lastpaddr (p.ram.firstpaddr + u32 npages * pageSize) with hlt | hge
  · rw [if_pos hlt]
    exact .inl ⟨hlt,rfl⟩
  · rw [if_neg (Nat.not_lt.mpr hge)]
    refine .inr ⟨hge,?_⟩
    have haddr : u32 ((p.ram.firstpaddr : Int) + mipsKseg0) = p.ram.firstpaddr + mipsKseg0 := by
      refine u32_of_nat ?_
      unfold mipsKseg0
      omega
    dsimp only
    rw [haddr]
    split <;> rfl

theorem allocKpages_early_owns (hcold : p.coremap.coremapStr = 0) (hram : p.ram.Accepted)
    (hwrap : NoWrap p (u32 npages)) (hne : (allocKpages npages p).1 ≠ 0) :
    OwnsFrames p (allocKpages npages p).2 (allocKpages npages p).1 (u32 npages) := by
  rcases allocKpages_early hcold hram hwrap with ⟨-,hfull⟩ | ⟨hle,hgot⟩
  · rw [hfull] at hne
    exact absurd rfl hne
  · rw [hgot] at hne ⊢
    refine ⟨fun _ => ⟨if_neg fun hzero => hne (if_pos hzero),rfl,hle⟩,fun hb => absurd hcold hb⟩

theorem allocKpages_late_owns (hs : p.coremap.Sane) (hn : u32 npages ≠ 0)
    (hne : (allocKpages npages p).1 ≠ 0) :
    OwnsFrames p (allocKpages npages p).2 (allocKpages npages p).1 (u32 npages) := by
  rcases allocKpages_cases hs hn with hfull | ⟨start,hle,hfree,hgot⟩
  · rw [hfull] at hne
    exact absurd rfl hne
  · rw [hgot]
    refine ⟨fun hcold => absurd hcold hs.booted,fun _ => ⟨start,rfl,hle,fun k hk =>
      ⟨hfree k hk,?_⟩⟩⟩
    rw [Coremap.takeRun_allocated,if_pos (by omega)]

theorem allocKpages_none_owned (hp : p.coremap.coremapStr = 0 ∧ p.ram.Accepted ∨ p.coremap.Sane)
    (hn : u32 npages = 0) :
    ¬ OwnsFrames p (allocKpages npages p).2 (allocKpages npages p).1 1 := by
  intro howns
  rcases hp with ⟨hcold,hram⟩ | hs
  · have hwrap : NoWrap p (u32 npages) := by
      have htop := hram.top
      have hle := hram.ordered
      intro _
      rw [hn]
      omega
    obtain ⟨-,hbump,hroom⟩ := howns.early hcold
    have hpage : pageSize = 4096 := rfl
    rcases allocKpages_early hcold hram hwrap with ⟨hlt,-⟩ | ⟨-,hgot⟩
    · rw [hn] at hlt
      omega
    · rw [hgot,hn] at hbump
      dsimp only at hbump
      omega
  · obtain ⟨h,-,-,hrun⟩ := howns.late hs.booted
    obtain ⟨hzero,hone⟩ := hrun 0 Nat.one_pos
    rcases getppages_cases hs (u32 npages) with hfull | ⟨start,-,-,-,hgot⟩
    · unfold allocKpages at hone
      rw [hfull] at hone
      exact absurd (hzero.symm.trans hone) (by decide)
    · have hkept : (allocKpages npages p).2.coremap = p.coremap.takeRun start (u32 npages) := by
        unfold allocKpages
        rw [hgot]
        dsimp only
        split <;> rfl
      rw [hkept,Coremap.takeRun_allocated,if_neg (by omega)] at hone
      exact absurd (hzero.symm.trans hone) (by decide)

theorem allocKpages_owns_iff
    (hp : p.coremap.coremapStr = 0 ∧ p.ram.Accepted ∨ p.coremap.Sane) (npages : Int) :
    ((allocKpages npages p).1 ≠ 0 →
        OwnsFrames p (allocKpages npages p).2 (allocKpages npages p).1 (max (u32 npages) 1)) ↔
      (allocKpages npages p).1 = 0 ∨ 0 < u32 npages ∧ NoWrap p (u32 npages) := by
  rcases eq_or_ne (allocKpages npages p).1 0 with hzero | hne
  · exact ⟨fun _ => .inl hzero,fun _ hne => absurd hzero hne⟩
  rcases Nat.eq_zero_or_pos (u32 npages) with hn | hn
  · rw [hn,Nat.max_eq_right (Nat.zero_le 1)]
    refine ⟨fun h => absurd (h hne) (allocKpages_none_owned hp hn),?_⟩
    rintro (hzero | ⟨hpos,-⟩)
    · exact absurd hzero hne
    · exact absurd hpos (Nat.lt_irrefl 0)
  rw [Nat.max_eq_left hn]
  constructor
  · intro h
    refine .inr ⟨hn,fun hcold => ?_⟩
    obtain ⟨-,-,hroom⟩ := (h hne).early hcold
    rcases hp with ⟨-,hram⟩ | hs
    · have htop := hram.top
      omega
    · exact absurd hcold hs.booted
  · rintro (hzero | ⟨-,hwrap⟩) -
    · exact absurd hzero hne
    · rcases hp with ⟨hcold,hram⟩ | hs
      · exact allocKpages_early_owns hcold hram hwrap hne
      · exact allocKpages_late_owns hs (Nat.ne_of_gt hn) hne

end OwnsFrames

namespace Boot

structure Kernel where
  sys : Sys
  -- addresses from alloc_kpages before vm_bootstrap that are not freed, with their page counts
  early : Nat → Option Nat
  asked : Nat → Nat

inductive Act where
  | early (npages : Int)
  | bootstrap (entries : Nat → CoremapEntry)
  | vm (op : VmOp)
  | freeEarly (addr : Nat)

def coldCoremap : Coremap := ⟨0, 0, 0, fun _ => ⟨0, 0, none, none⟩⟩

def cold (ram : Ram) (tlb : Nat → TlbEntry) : Sys :=
  { vm := ⟨⟨ram, coldCoremap⟩, fun _ => none, fun _ => lv2Empty, tlb⟩, live := fun _ => none }

namespace Kernel

def start (ram : Ram) (tlb : Nat → TlbEntry) : Kernel := ⟨cold ram tlb, fun _ => none, fun _ => 0⟩

abbrev coremap (s : Kernel) : Coremap := s.sys.vm.coremap

def setPhys (s : Kernel) (phys : Phys) : Kernel :=
  { s with sys := { s.sys with vm := { s.sys.vm with phys := phys } } }

def record (s : Kernel) (op : VmOp) (sys : Sys) : Kernel :=
  { s with
    sys := sys
    asked := fun a =>
      if s.sys.live a = none ∧ sys.live a ≠ none then op.asks else s.asked a }

def step (s : Kernel) : Act → Option Kernel
  | .early npages =>
    if s.coremap.coremapStr = 0 then
      let (a, phys) := allocKpages npages s.sys.vm.phys
      some { s.setPhys phys with
        early := if a = 0 then s.early else Function.update s.early a (some (u32 npages)) }
    else none
  | .bootstrap entries =>
    if s.coremap.coremapStr = 0 then
      let ram := s.sys.vm.phys.ram
      some (s.setPhys ⟨ram, vmBootstrap ram entries⟩)
    else none
  | .vm op => if s.coremap.coremapStr ≠ 0 then (vmStep s.sys op).map (s.record op) else none
  | .freeEarly a =>
    if s.coremap.coremapStr ≠ 0 ∧ s.early a ≠ none then
      some { s.setPhys (freeKpages a s.sys.vm.phys) with early := Function.update s.early a none }
    else none

def FreeInside (s : Kernel) : Act → Prop
  | .vm (.freeKpages a) => FreesInside s.coremap a (s.asked a)
  | .vm (.asDestroy as) => ∀ sp, s.sys.vm.spaces as = some sp →
      FreesInside (destroyTables s.sys.vm sp).coremap as (s.asked as)
  | .freeEarly a => ∀ npages, s.early a = some npages → FreesInside s.coremap a npages
  | _ => True

end Kernel

def Act.Careful : Act → Prop
  | .vm op => op.disciplined
  | .freeEarly _ => False
  | _ => True

theorem ramStealmem_accepted {ram : Ram} (hram : ram.Accepted) (npages : Nat) :
    (ramStealmem npages ram).2.Accepted := by
  obtain ⟨hfirst,hlast,hle,htop⟩ := hram
  unfold ramStealmem
  dsimp only
  split
  · exact ⟨hfirst,hlast,hle,htop⟩
  · refine ⟨?_,hlast,by dsimp only; omega,htop⟩
    dsimp only
    unfold u32 pageSize
    omega

theorem allocKpages_cold {ram : Ram} (hram : ram.Accepted) (npages : Int) :
    ∃ ram', ram'.Accepted ∧ (allocKpages npages ⟨ram, coldCoremap⟩).2 = ⟨ram', coldCoremap⟩ := by
  have hsteal : getppages (u32 npages) ⟨ram,coldCoremap⟩ =
      ((ramStealmem (u32 npages) ram).1, ⟨(ramStealmem (u32 npages) ram).2,coldCoremap⟩) := by
    simp [getppages,coldCoremap]
  refine ⟨(ramStealmem (u32 npages) ram).2,ramStealmem_accepted hram _,?_⟩
  unfold allocKpages
  rw [hsteal]
  dsimp only
  split <;> rfl

structure Runs (s : Kernel) (own : Nat → Option Owner) : Prop where
  held : Held s.sys own
  asked : ∀ {a k}, k ≠ .table → s.sys.live a = some k → headLength s.coremap a = s.asked a

def Ok (s : Kernel) : Prop :=
  (∃ ram tlb, ram.Accepted ∧ s.sys = cold ram tlb) ∨ ∃ own, Runs s own

section
variable {s s' : Kernel} {act : Act}

theorem Runs.step {own : Nat → Option Owner} (h : Runs s own) {op : VmOp} (hd : op.disciplined)
    {sys : Sys} (hstep : vmStep s.sys op = some sys) : ∃ own', Runs (s.record op sys) own' := by
  obtain ⟨own',he⟩ := h.held.step hd hstep
  refine ⟨own',he.held,fun {a k} htable hk => ?_⟩
  obtain ⟨⟨hnone,hlen⟩ | ⟨hold,hlen⟩⟩ := h.held.keeps_run hd hstep hk htable
  · refine hlen.trans (congrArg Nat.cast (if_pos ⟨hnone,?_⟩).symm)
    rw [show sys.live a = some k from hk]
    exact Option.some_ne_none k
  · refine hlen.trans ((h.asked htable hold).trans (congrArg Nat.cast (if_neg ?_).symm))
    rintro ⟨hnone,-⟩
    rw [hold] at hnone
    cases hnone

theorem Ok.step (h : Ok s) (hc : act.Careful) (hstep : s.step act = some s') : Ok s' := by
  cases act with
  | early npages =>
    simp only [Kernel.step] at hstep
    obtain ⟨hcold,hstep⟩ := Option.ite_none_right_eq_some.mp hstep
    rcases h with ⟨ram,tlb,hram,hsys⟩ | ⟨own,hr⟩
    · obtain ⟨ram',hram',hphys⟩ := allocKpages_cold hram npages
      cases hstep
      refine .inl ⟨ram',tlb,hram',?_⟩
      simp only [Kernel.setPhys,hsys]
      rw [show (cold ram tlb).vm.phys = ⟨ram,coldCoremap⟩ from rfl,hphys]
      rfl
    · exact absurd hcold hr.held.ledger.sane.booted
  | bootstrap entries =>
    obtain ⟨hcold,hstep⟩ := Option.ite_none_right_eq_some.mp hstep
    rcases h with ⟨ram,tlb,hram,hsys⟩ | ⟨own,hr⟩
    · cases hstep
      have hboot : (s.setPhys ⟨s.sys.vm.phys.ram,vmBootstrap s.sys.vm.phys.ram entries⟩).sys =
          Sys.boot ram entries tlb := by
        simp only [Kernel.setPhys,hsys]
        rfl
      refine .inr ⟨fun _ => none,hboot ▸ held_boot hram entries tlb,fun {a k} _ hk => ?_⟩
      rw [hboot] at hk
      cases hk
    · exact absurd hcold hr.held.ledger.sane.booted
  | vm op =>
    obtain ⟨hbooted,hstep⟩ := Option.ite_none_right_eq_some.mp hstep
    obtain ⟨sys,hsys,rfl⟩ := Option.map_eq_some_iff.mp hstep
    rcases h with ⟨ram,tlb,-,hcold⟩ | ⟨own,hr⟩
    · unfold Kernel.coremap at hbooted
      rw [hcold] at hbooted
      exact absurd rfl hbooted
    · exact .inr (hr.step hc hsys)
  | freeEarly a => exact absurd hc id

theorem Runs.freeInside {own : Nat → Option Owner} (h : Runs s own) {op : VmOp} {sys : Sys}
    (hstep : vmStep s.sys op = some sys) : s.FreeInside (.vm op) := by
  cases op with
  | freeKpages a =>
    obtain ⟨hlive,hstep⟩ := Option.ite_none_right_eq_some.mp hstep
    exact h.held.ledger.freesInside hlive (h.asked (by decide) hlive)
  | asDestroy as =>
    intro sp hsp
    have hlive : s.sys.live as = some .space := h.held.mapped.space (by rw [hsp]; simp)
    exact (h.held.destroyed_ledger hsp).freesInside hlive
      ((h.held.destroyed_head hsp hlive).trans (h.asked (by decide) hlive))
  | allocKpages | asCreate | asDefineRegion | asDefineStack | sysSbrk | asActivate | vmFault =>
    trivial

end

theorem free_kpages_inside_along {ram : Ram} (hram : ram.Accepted) {tlb : Nat → TlbEntry}
    {acts : List Act} {act : Act} {s s' : Kernel} (hc : ∀ a ∈ acts ++ [act], a.Careful)
    (hrun : Run.exec Kernel.step (.start ram tlb) acts = some s) (hstep : s.step act = some s') :
    s.FreeInside act := by
  rw [List.forall_mem_append] at hc
  have hact : act.Careful := hc.2 act List.mem_cons_self
  have hok : Ok s := by
    refine Run.invariant (I := Ok) ?_ (.inl ⟨ram,tlb,hram,rfl⟩) (Run.along_of_forall hc.1) hrun
    exact fun s act s' h hc hstep => h.step hc hstep
  cases act with
  | early | bootstrap => trivial
  | freeEarly a => exact absurd hact id
  | vm op =>
    obtain ⟨hbooted,hstep⟩ := Option.ite_none_right_eq_some.mp hstep
    obtain ⟨sys,hsys,-⟩ := Option.map_eq_some_iff.mp hstep
    rcases hok with ⟨ram',tlb',-,hcold⟩ | ⟨own,hr⟩
    · unfold Kernel.coremap at hbooted
      rw [hcold] at hbooted
      exact absurd rfl hbooted
    · exact hr.freeInside hsys

theorem free_kpages_inside_late_pages :
    ∃ s s', Run.exec Kernel.step (.start smallRam tlbInvalid)
        [.early 1, .bootstrap zeroRam, .vm (.allocKpages 2)] = some s ∧
      s.step (.vm (.freeKpages 0x80012000)) = some s' ∧ s.asked 0x80012000 = 2 ∧
      FreesInside s.coremap 0x80012000 2 := by
  have hview : (Run.exec Kernel.step (.start smallRam tlbInvalid)
      [.early 1,.bootstrap zeroRam,.vm (.allocKpages 2)]).bind (fun s =>
        (s.step (.vm (.freeKpages 0x80012000))).map fun _ => s.asked 0x80012000) = some 2 := by
    decide +kernel
  obtain ⟨s,hs,hmap⟩ := Option.bind_eq_some_iff.mp hview
  obtain ⟨s',hs',hasked⟩ := Option.map_eq_some_iff.mp hmap
  have hinside := free_kpages_inside_along smallRam_accepted (by
    intro act hact
    simp only [List.cons_append,List.nil_append,List.mem_cons,List.not_mem_nil,or_false] at hact
    rcases hact with rfl | rfl | rfl | rfl <;> simp [Act.Careful,VmOp.disciplined,u32]) hs hs'
  exact ⟨s,s',hs,hs',hasked,hasked ▸ hinside⟩

theorem early_page_freed_outside :
    ∃ s s', Run.exec Kernel.step (.start smallRam tlbInvalid) [.early 1, .bootstrap zeroRam] = some s ∧
      s.early 0x80010000 = some 1 ∧ s.step (.freeEarly 0x80010000) = some s' ∧
      s.coremap.numofpage = 14 ∧ kpageIndex s.coremap 0x80010000 = 0xffffe ∧
      ¬ s.FreeInside (.freeEarly 0x80010000) := by
  have hview : (Run.exec Kernel.step (.start smallRam tlbInvalid)
      [.early 1,.bootstrap zeroRam]).bind (fun s =>
        (s.step (.freeEarly 0x80010000)).map fun _ =>
          (s.early 0x80010000, s.coremap.numofpage, kpageIndex s.coremap 0x80010000)) =
      some (some 1, 14, 0xffffe) := by decide +kernel
  obtain ⟨s,hs,hmap⟩ := Option.bind_eq_some_iff.mp hview
  obtain ⟨s',hs',heq⟩ := Option.map_eq_some_iff.mp hmap
  simp only [Prod.mk.injEq] at heq
  obtain ⟨hearly,hnum,hidx⟩ := heq
  refine ⟨s,s',hs,hearly,hs',hnum,hidx,fun h => ?_⟩
  have hhead := (h 1 hearly).head
  rw [hnum,hidx] at hhead
  exact absurd hhead (by decide)

end Boot

end OS161
