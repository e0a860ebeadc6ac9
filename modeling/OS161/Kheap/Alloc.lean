import OS161.Kheap.Refs

namespace OS161.Kheap

open Bytes (load32 store32)
open Linked

section
variable {h h' : Heap} {p q : Page} {xs ys ps : List Page} {free : List Nat}

theorem Rep.length_le (hr : Rep h ps) : ps.length ≤ npagerefs := by
  have hsub : ps.map Page.ref ⊆ List.range npagerefs := by
    intro r hin
    obtain ⟨p,hp,rfl⟩ := List.mem_map.mp hin
    exact List.mem_range.mpr (hr.refs p hp)
  have := (List.subperm_of_subset hr.nodup hsub).length_le
  simpa using this

theorem Rep.update (hr : Rep h (xs ++ p :: ys)) (hinuse : h'.inuse = h.inuse)
    (hall : h'.allbase = h.allbase) (hsame : h'.sizebases = h.sizebases)
    (hrefs : ∀ r, r ≠ p.ref → h'.pagerefs r = h.pagerefs r)
    (hna : (h'.pagerefs p.ref).nextAll = (h.pagerefs p.ref).nextAll)
    (hns : (h'.pagerefs p.ref).nextSamesize = (h.pagerefs p.ref).nextSamesize)
    (hmem : ∀ x, x < p.addr ∨ p.addr + pageSize ≤ x → h'.mem x = h.mem x)
    (hp : PageOk h' { p with free := free }) : Rep h' (xs ++ { p with free := free } :: ys) := by
  have hmap : (xs ++ { p with free := free } :: ys).map Page.ref = (xs ++ p :: ys).map Page.ref := by
    simp
  have hfilter (t : Nat) : ((xs ++ { p with free := free } :: ys).filter (·.type = t)).map Page.ref =
      ((xs ++ p :: ys).filter (·.type = t)).map Page.ref := by
    by_cases ht : p.type = t <;> simp [ht]
  have hfield {α : Type} (f : Pageref → α) (hf : f (h'.pagerefs p.ref) = f (h.pagerefs p.ref))
      (r : Nat) : f (h'.pagerefs r) = f (h.pagerefs r) := by
    by_cases hrp : r = p.ref
    · rw [hrp,hf]
    · rw [hrefs r hrp]
  refine ⟨?_,by rw [hmap]; exact hr.nodup,fun r hlt => ?_,fun i => by rw [hinuse]; exact hr.words i,
    ?_,fun t ht => ?_,fun q hq => ?_,?_⟩
  · intro q hq
    have hin : q.ref ∈ (xs ++ p :: ys).map Page.ref := hmap ▸ List.mem_map_of_mem hq
    obtain ⟨q',hq',heq⟩ := List.mem_map.mp hin
    exact heq ▸ hr.refs q' hq'
  · rw [hmap]
    unfold Heap.refUsed
    rw [hinuse]
    exact hr.bits r hlt
  · rw [hmap,hall]
    exact hr.all.congr fun r _ => hfield Pageref.nextAll hna r
  · rw [hfilter,hsame]
    exact (hr.same t ht).congr fun r _ => hfield Pageref.nextSamesize hns r
  · have hcase : q = { p with free := free } ∨ q ∈ xs ++ ys := by
      simp only [List.mem_append,List.mem_cons] at hq ⊢
      tauto
    rcases hcase with rfl | hq
    · exact hp
    · obtain ⟨hin,href,haddr⟩ := hr.others hq
      have hok := hr.page q hin
      refine hok.congr (hrefs _ href) fun x hlo hhi => hmem x ?_
      have := pages_apart hok.aligned hp.aligned haddr
      dsimp only at this
      omega
  · have : (xs ++ { p with free := free } :: ys).map Page.addr = (xs ++ p :: ys).map Page.addr := by
      simp
    rw [this]
    exact hr.apart

end

section
variable {h : Heap} {l ps : List Page} {t : Nat}

theorem findFree_from {fuel : Nat} {head : Option Nat}
    (hl : Links (fun r => (h.pagerefs r).nextSamesize) head (l.map Page.ref))
    (hok : ∀ p ∈ l, PageOk h p ∧ p.type = t) (hfuel : l.length ≤ fuel) :
    (findFree h t fuel head = .ok none ∧ ∀ p ∈ l, p.free = []) ∨
      ∃ p ∈ l, findFree h t fuel head = .ok (some p.ref) ∧ p.free ≠ [] := by
  induction l generalizing fuel head with
  | nil =>
    rw [List.map_nil,links_nil] at hl
    subst hl
    exact .inl ⟨by cases fuel <;> rfl,nofun⟩
  | cons p l ih =>
    rw [List.map_cons,links_cons] at hl
    obtain ⟨rfl,hl⟩ := hl
    obtain ⟨fuel,rfl⟩ : ∃ k, fuel = k + 1 := ⟨fuel - 1,by simp at hfuel; omega⟩
    obtain ⟨hp,ht⟩ := hok p List.mem_cons_self
    have hstep : findFree h t (fuel + 1) (some p.ref) =
        if p.free.length > 0 then .ok (some p.ref)
        else findFree h t fuel (h.pagerefs p.ref).nextSamesize := by
      rw [findFree,assert_of (decide_eq_true (hp.blocktype.trans ht)),hp.nfree]
      rfl
    rw [hstep]
    cases hfree : p.free with
    | cons a rest => exact .inr ⟨p,List.mem_cons_self,rfl,by rw [hfree]; exact nofun⟩
    | nil =>
      have hlen : l.length ≤ fuel := by simpa using hfuel
      rcases ih hl (fun q hq => hok q (List.mem_cons_of_mem _ hq)) hlen with
        ⟨hnone,hall⟩ | ⟨q,hq,hsome,hne⟩
      · exact .inl ⟨hnone,fun q hq => (List.mem_cons.mp hq).elim (fun heq => heq ▸ hfree) (hall q)⟩
      · exact .inr ⟨q,List.mem_cons_of_mem _ hq,hsome,hne⟩

theorem findFree_spec (hr : Rep h ps) (ht : t < nsizes) :
    (findFree h t npagerefs (h.sizebases t) = .ok none ∧ ∀ p ∈ ps, p.type = t → p.free = []) ∨
      ∃ p ∈ ps, findFree h t npagerefs (h.sizebases t) = .ok (some p.ref) ∧ p.type = t ∧
        p.free ≠ [] := by
  have hok : ∀ p ∈ ps.filter (·.type = t), PageOk h p ∧ p.type = t := by
    intro p hp
    obtain ⟨hin,htype⟩ := List.mem_filter.mp hp
    exact ⟨hr.page p hin,of_decide_eq_true htype⟩
  have hfuel : (ps.filter (·.type = t)).length ≤ npagerefs :=
    Nat.le_trans (List.length_filter_le _ _) hr.length_le
  rcases findFree_from (hr.same t ht) hok hfuel with ⟨hnone,hall⟩ | ⟨p,hp,hsome,hne⟩
  · exact .inl ⟨hnone,fun p hp htype => hall p (List.mem_filter.mpr ⟨hp,decide_eq_true htype⟩)⟩
  · exact .inr ⟨p,(List.mem_filter.mp hp).1,hsome,(hok p hp).2,hne⟩

end

section
variable {h : Heap} {p : Page} {xs ys : List Page} {a : Nat} {rest : List Nat}

theorem u16_of_lt {n : Nat} (hn : n < 2 ^ 16) : u16 n = n := by
  unfold u16
  omega

theorem u32_sub {a b : Nat} (hle : b ≤ a) (ha : a < 2 ^ 32) : u32 ((a : Int) - b) = a - b := by
  rw [← Int.ofNat_sub hle]
  exact u32_of_nat (by omega)

theorem PageOk.room (hp : PageOk h p) : p.free.length < 2 ^ 16 := by
  have hinj : (p.free.map fun a => a - p.addr).Nodup := by
    refine hp.nodup.map_on fun a ha b hb heq => ?_
    have := (hp.block a ha).1
    have := (hp.block b hb).1
    omega
  have hsub : (p.free.map fun a => a - p.addr) ⊆ List.range pageSize := by
    intro x hx
    obtain ⟨a,ha,rfl⟩ := List.mem_map.mp hx
    have := (hp.block a ha).1
    have := (hp.block a ha).2.1
    exact List.mem_range.mpr (by omega)
  have := (List.subperm_of_subset hinj hsub).length_le
  simp only [List.length_map,List.length_range,pageSize] at this
  omega

theorem PageOk.tail (hp : PageOk h p) (hfree : p.free = a :: rest) :
    load32 h.mem a = rest.head?.getD 0 ∧ (rest ≠ [] → load32 h.mem a ≠ 0) := by
  have hl := hp.links
  rw [hfree,List.head?_cons,links_cons] at hl
  have hnext := hl.2
  unfold nextPtr at hnext
  cases rest with
  | nil =>
    rw [links_nil] at hnext
    split at hnext
    · exact ⟨‹_›,fun hne => absurd rfl hne⟩
    · cases hnext
  | cons b rest =>
    rw [links_cons] at hnext
    obtain ⟨hb,-⟩ := hnext
    split at hb
    · cases hb
    · exact ⟨Option.some.inj hb,fun _ => ‹_›⟩

theorem doalloc_page (hp : PageOk h p) (hfree : p.free = a :: rest) :
    doalloc h p.ref = .ok (a, h.setPageref p.ref { h.pagerefs p.ref with
      nfree := rest.length, freelistOffset := ({ p with free := rest } : Page).offset }) := by
  have hblock : ∀ b ∈ a :: rest, p.IsBlock b := hfree ▸ hp.block
  obtain ⟨halo,hahi,-⟩ := hblock a List.mem_cons_self
  have htop := hp.top
  have hoff : (h.pagerefs p.ref).freelistOffset = a - p.addr := by
    rw [hp.offset,Page.offset,hfree]
  have hret : u32 (p.addr + (a - p.addr : Nat) : Int) = a := by
    rw [← Nat.cast_add,Nat.add_sub_cancel' halo]
    exact u32_of_nat (by omega)
  have hroom := hp.room
  have hnf : u16 ((h.pagerefs p.ref).nfree - 1 : Int) = rest.length := by
    rw [hp.nfree,hfree,List.length_cons,Nat.cast_succ,Int.add_sub_cancel]
    rw [hfree,List.length_cons] at hroom
    exact u16_of_lt (by omega)
  have hlt : (decide ((h.pagerefs p.ref).freelistOffset < pageSize)) = true := by
    rw [hoff]
    exact decide_eq_true (by omega)
  obtain ⟨hload,hne⟩ := hp.tail hfree
  unfold doalloc
  dsimp only
  rw [assert_of hlt,hp.pageaddr,hoff,hret,hnf]
  cases rest with
  | nil =>
    rw [hload]
    rfl
  | cons b rest =>
    have hnext : load32 h.mem a = b := hload
    obtain ⟨hblo,hbhi,-⟩ := hblock b (by simp)
    have hsub : u32 ((b : Int) - p.addr) = b - p.addr := u32_sub hblo (by omega)
    have hin : decide (u32 ((b : Int) - p.addr) < pageSize) = true := by
      rw [hsub]
      exact decide_eq_true (by omega)
    have hsmall : u16 ((b - p.addr : Nat) : Int) = b - p.addr := by
      unfold pageSize at hbhi
      exact u16_of_lt (by omega)
    rw [if_pos (hne (by simp)),hnext,assert_of hin,hsub,hsmall]
    rfl

theorem doalloc_spec (hr : Rep h (xs ++ p :: ys)) (hfree : p.free = a :: rest) :
    ∃ h', doalloc h p.ref = .ok (a, h') ∧ Rep h' (xs ++ { p with free := rest } :: ys) ∧
      h'.mem = h.mem := by
  have hp := hr.page p (by simp)
  refine ⟨_,doalloc_page hp hfree,?_,rfl⟩
  have hl := hp.links
  have hnd := hp.nodup
  rw [hfree,List.head?_cons,links_cons] at hl
  rw [hfree,List.nodup_cons] at hnd
  have hblock : ∀ b ∈ rest, p.IsBlock b := fun b hb =>
    hp.block b (hfree ▸ List.mem_cons_of_mem _ hb)
  have hhead : nextPtr h.mem a = rest.head? := by
    cases rest with
    | nil => exact links_nil.mp hl.2
    | cons b rest => exact (links_cons.mp hl.2).1
  refine hr.update rfl rfl rfl (fun r hne => Function.update_of_ne hne _ _) ?_ ?_
    (fun _ _ => rfl) ⟨hp.type,hp.aligned,hp.pos,hp.top,?_,?_,?_,?_,hnd.2,hblock⟩
  · simp [Heap.setPageref]
  · simp [Heap.setPageref]
  · simpa [Heap.setPageref] using hp.pab
  · simp [Heap.setPageref]
  · simp [Heap.setPageref]
  · exact hhead ▸ hl.2

end

end OS161.Kheap
