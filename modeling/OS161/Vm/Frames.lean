import OS161.Vm.AddrSpace
import OS161.Lib.Holding

namespace OS161

open Function Coremap

open Holding

inductive Kind where
  | client
  | space
  | table
  deriving DecidableEq, Repr

inductive Owner where
  | kernel (addr : Nat)
  | page (as l1 l2 : Nat)
  deriving DecidableEq, Repr

def Owner.pageOf (as : Nat) : Owner → Prop
  | .kernel _ => False
  | .page as' _ _ => as' = as

structure Ledger (c : Coremap) (live : Nat → Option Kind) (own : Nat → Option Owner) : Prop where
  sane : c.Sane
  bound : ∀ {i o}, own i = some o → i < c.count ∧ (c.entries i).allocated = 1
  run : ∀ {a k}, live a = some k → ∃ h n, a = c.kvaddr h ∧ 0 < n ∧ h + n ≤ c.count ∧
    (c.entries h).continuous = (n : Int) ∧
    ∀ i, own i = some (.kernel a) ↔ h ≤ i ∧ i < h + n
  kern : ∀ {i a}, own i = some (.kernel a) → live a ≠ none

def TightOn (p : Nat → Prop) (c : Coremap) (own : Nat → Option Owner) : Prop :=
  ∀ i < c.count, p i → (c.entries i).allocated = 1 → own i ≠ none

def Tight (c : Coremap) (own : Nat → Option Owner) : Prop := TightOn (fun _ => True) c own

section Ledger
variable {c : Coremap} {live live' : Nat → Option Kind} {own : Nat → Option Owner}
  (hl : Ledger c live own)
include hl

theorem Ledger.own_none {i : Nat} (ha : (c.entries i).allocated ≠ 1) : own i = none := by
  cases ho : own i with
  | none => rfl
  | some o => exact absurd (hl.bound ho).2 ha

theorem Ledger.fresh {h : Nat} (hh : h < c.count) (ha : (c.entries h).allocated ≠ 1) :
    live (c.kvaddr h) = none := by
  cases hk : live (c.kvaddr h) with
  | none => rfl
  | some k =>
    obtain ⟨h',n,haddr,hn,hle,-,hrun⟩ := hl.run hk
    have heq : h = h' := by
      rw [← kpageIndex_kvaddr hl.sane hh,haddr,
        kpageIndex_kvaddr hl.sane (by omega)]
    have howned := (hrun h).mpr (by omega)
    exact absurd (hl.bound howned).2 ha

theorem Ledger.restrict {d : Coremap} (hs : c.SameFrames d) {q : Owner → Prop}
    (hlive : ∀ {a k}, live' a = some k → live a = some k ∧ ¬ q (.kernel a))
    (hkern : ∀ {a}, ¬ q (.kernel a) → live a ≠ none → live' a ≠ none)
    (he : ∀ {i o}, own i = some o → ¬ q o →
      (d.entries i).allocated = 1 ∧ (d.entries i).continuous = (c.entries i).continuous) :
    Ledger d live' (release own q) where
  sane := hs.sane hl.sane
  bound h := by
    obtain ⟨ho,hq⟩ := release_eq_some.mp h
    rw [hs.count]
    exact ⟨(hl.bound ho).1,(he ho hq).1⟩
  run h := by
    obtain ⟨hk,hq⟩ := hlive h
    obtain ⟨head,n,haddr,hn,hle,hcont,hrun⟩ := hl.run hk
    have hhead := (he ((hrun head).mpr (by omega)) hq).2
    refine ⟨head,n,by rw [hs.kvaddr,haddr],hn,by rwa [hs.count],hhead.trans hcont,
      fun i => ?_⟩
    rw [release_eq_some,hrun i]
    exact and_iff_left hq
  kern h := by
    obtain ⟨ho,hq⟩ := release_eq_some.mp h
    exact hkern hq (hl.kern ho)

theorem Ledger.take {h n : Nat} (hn : 0 < n) (hle : h + n ≤ c.count)
    (hfree : ∀ k < n, (c.entries (h + k)).allocated = 0) (kind : Kind) :
    Ledger (c.takeRun h n) (Function.update live (c.kvaddr h) (some kind))
      (grant own (.kernel (c.kvaddr h)) fun i => h ≤ i ∧ i < h + n) := by
  have hfree' : ∀ {i}, h ≤ i ∧ i < h + n → own i = none := fun {i} hi =>
    hl.own_none (by have := hfree (i - h) (by omega); rw [Nat.add_sub_cancel' hi.1] at this; omega)
  have hnew : live (c.kvaddr h) = none :=
    hl.fresh (by omega) (by have := hfree 0 hn; rw [Nat.add_zero] at this; omega)
  have hs := sameFrames_takeRun c h n
  refine ⟨hs.sane hl.sane,fun {i o} ho => ?_,fun {a k} hk => ?_,fun {i a} ho => ?_⟩
  · rw [hs.count,takeRun_allocated]
    rcases grant_eq_some.mp ho with ⟨hi,-⟩ | ⟨hi,ho⟩
    · exact ⟨by omega,if_pos hi⟩
    · rw [if_neg hi]
      exact hl.bound ho
  · by_cases ha : a = c.kvaddr h
    · rw [ha]
      refine ⟨h,n,by rw [hs.kvaddr],hn,by rwa [hs.count],?_,fun i => ?_⟩
      · rw [takeRun_continuous,if_pos rfl]
      · rw [grant_eq_some]
        have hno : own i ≠ some (.kernel (c.kvaddr h)) := fun ho => hl.kern ho hnew
        simp [hno]
    · rw [update_of_ne ha] at hk
      obtain ⟨h',n',haddr,hn',hle',hcont,hrun⟩ := hl.run hk
      have hhead := (hrun h').mpr (by omega)
      have hne : h' ≠ h := fun heq => by
        rw [hfree' (by omega)] at hhead
        exact Option.some_ne_none _ hhead.symm
      refine ⟨h',n',by rw [hs.kvaddr,haddr],hn',by rwa [hs.count],?_,fun i => ?_⟩
      · rw [takeRun_continuous,if_neg hne]
        exact hcont
      · rw [grant_eq_some,← hrun i]
        constructor
        · rintro (⟨-,heq⟩ | ⟨-,ho⟩)
          · exact absurd (Owner.kernel.inj heq) ha
          · exact ho
        · intro ho
          refine Or.inr ⟨fun hi => ?_,ho⟩
          rw [hfree' hi] at ho
          exact Option.some_ne_none _ ho.symm
  · rcases grant_eq_some.mp ho with ⟨-,heq⟩ | ⟨-,ho⟩
    · rw [Owner.kernel.inj heq,update_self]
      simp
    · have := hl.kern ho
      by_cases ha : a = c.kvaddr h
      · rw [ha,update_self]
        simp
      · rwa [update_of_ne ha]

theorem Ledger.assign {i as l1 l2 : Nat} {e : CoremapEntry} (hi : i < c.count)
    (hown : own i = none) (he : e.allocated = 1) :
    Ledger (c.setEntry i e) live (grant own (.page as l1 l2) (· = i)) := by
  have hkernel : ∀ j a, grant own (.page as l1 l2) (· = i) j = some (.kernel a) ↔
      own j = some (.kernel a) := by
    intro j a
    rw [grant_eq_some]
    constructor
    · rintro (⟨-,heq⟩ | ⟨-,ho⟩)
      · cases heq
      · exact ho
    · intro ho
      refine Or.inr ⟨fun hj => ?_,ho⟩
      rw [hj,hown] at ho
      exact Option.some_ne_none _ ho.symm
  have hs := sameFrames_setEntry c i e
  refine ⟨hs.sane hl.sane,fun {j o} ho => ?_,fun {a k} hk => ?_,
    fun {j a} ho => hl.kern ((hkernel j a).mp ho)⟩
  · rw [hs.count,entries_setEntry]
    rcases grant_eq_some.mp ho with ⟨rfl,-⟩ | ⟨hj,ho⟩
    · rw [update_self]
      exact ⟨hi,he⟩
    · rw [update_of_ne hj]
      exact hl.bound ho
  · obtain ⟨h,n,haddr,hn,hle,hcont,hrun⟩ := hl.run hk
    have hne : h ≠ i := fun heq => by
      have ho := (hrun h).mpr (by omega)
      rw [heq,hown] at ho
      exact Option.some_ne_none _ ho.symm
    refine ⟨h,n,by rw [hs.kvaddr,haddr],hn,by rwa [hs.count],?_,
      fun j => (hkernel j a).trans (hrun j)⟩
    rw [entries_setEntry,update_of_ne hne]
    exact hcont

theorem Ledger.free_entries {p : Phys} (hp : p.coremap = c) {a : Nat} {k : Kind}
    (hk : live a = some k) (i : Nat) :
    (own i = some (.kernel a) → ((freeKpages a p).coremap.entries i).allocated = 0) ∧
      (own i ≠ some (.kernel a) → (freeKpages a p).coremap.entries i = c.entries i) := by
  subst hp
  obtain ⟨h,n,haddr,hn,hle,hcont,hrun⟩ := hl.run hk
  have hidx : kpageIndex p.coremap a = h := by
    rw [haddr]
    exact kpageIndex_kvaddr hl.sane (by omega)
  have hlen : ((p.coremap.entries h).continuous).toNat = n := by
    rw [hcont]
    exact Int.toNat_natCast n
  rw [Ne,hrun i]
  simp only [freeKpages,hidx,hlen,Coremap.setContinuous,entries_setEntry,
    Coremap.clearRun,update_apply]
  constructor
  · intro hi
    by_cases hih : i = h
    · subst hih
      simp [hn]
    · simp [hih,hi]
  · intro hi
    have hih : i ≠ h := by omega
    simp [hih,hi]

theorem Ledger.free {p : Phys} (hp : p.coremap = c) {a : Nat} {k : Kind}
    (hk : live a = some k) :
    Ledger (freeKpages a p).coremap (Function.update live a none)
      (release own (· = .kernel a)) := by
  refine hl.restrict (hp ▸ sameFrames_freeKpages a p) (fun {b k} hb => ?_) (fun {b} hb hlive => ?_)
    (fun {i o} ho hne => ?_)
  · have hne : b ≠ a := fun heq => by
      rw [heq,update_self] at hb
      exact Option.some_ne_none _ hb.symm
    rw [update_of_ne hne] at hb
    exact ⟨hb,fun heq => hne (Owner.kernel.inj heq)⟩
  · have hne : b ≠ a := fun heq => hb (by rw [heq])
    rwa [update_of_ne hne]
  · have hi := (hl.free_entries hp hk i).2 (by rw [ho]; exact fun heq => hne (Option.some_inj.mp heq))
    rw [hi]
    exact ⟨(hl.bound ho).2,rfl⟩

theorem Ledger.mark {i : Nat} :
    Ledger (c.setEntry i { c.entries i with allocated := 1 }) live own := by
  have hrel := hl.restrict (sameFrames_setEntry c i { c.entries i with allocated := 1 })
    (q := fun _ => False) (fun h => ⟨h,id⟩) (fun _ h => h) (fun {j o} ho _ => ?_)
  · rwa [release_false] at hrel
  · rw [entries_setEntry,update_apply]
    split
    case isTrue hj => exact ⟨rfl,by rw [hj]⟩
    case isFalse => exact ⟨(hl.bound ho).2,rfl⟩

theorem Tight.free {p : Phys} (hp : p.coremap = c) {a : Nat} {k : Kind}
    (hk : live a = some k) (ht : Tight c own) :
    Tight (freeKpages a p).coremap (release own (· = .kernel a)) := by
  intro i hi _ hall hnone
  have hspec := hl.free_entries hp hk i
  by_cases ho : own i = some (.kernel a)
  · rw [hspec.1 ho] at hall
    exact absurd hall (by decide)
  · rw [hspec.2 ho] at hall
    have hc : (freeKpages a p).coremap.count = c.count := by
      rw [(sameFrames_freeKpages a p).count,hp]
    obtain ⟨o,ho'⟩ := Option.ne_none_iff_exists'.mp (ht i (hc ▸ hi) trivial hall)
    have hq := release_eq_none.mp hnone o ho'
    exact ho (by rw [ho',hq])

end Ledger

section
variable {c : Coremap} {own : Nat → Option Owner}

theorem TightOn.take {p : Nat → Prop} {h n : Nat} {o : Owner} (ht : TightOn p c own) :
    TightOn p (c.takeRun h n) (grant own o fun i => h ≤ i ∧ i < h + n) := by
  intro i hi hp hall hnone
  obtain ⟨hout,hown⟩ := grant_eq_none.mp hnone
  rw [takeRun_allocated,if_neg hout] at hall
  exact ht i hi hp hall hown

theorem Tight.mark {i : Nat} {e : CoremapEntry} (ht : Tight c own) :
    TightOn (· ≠ i) (c.setEntry i e) own := by
  intro j hj hne hall
  rw [entries_setEntry,update_of_ne hne] at hall
  exact ht j hj trivial hall

theorem TightOn.assign {i : Nat} {e : CoremapEntry} {o : Owner} (ht : TightOn (· ≠ i) c own) :
    Tight (c.setEntry i e) (grant own o (· = i)) := by
  intro j hj _ hall hnone
  obtain ⟨hne,hown⟩ := grant_eq_none.mp hnone
  rw [entries_setEntry,update_of_ne hne] at hall
  exact ht j hj hne hall hown

end

end OS161
