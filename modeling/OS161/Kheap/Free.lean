import OS161.Kheap.Fresh

namespace OS161.Kheap

open Function

open Bytes (load32 store32)
open Linked

section
variable {h : Heap} {l ps : List Page} {ptr : Nat}

def Page.Holds (p : Page) (x : Nat) : Prop := p.addr ≤ x ∧ x < p.addr + pageSize

theorem findPage_from {fuel : Nat} {head : Option Nat}
    (hl : Links (fun r => (h.pagerefs r).nextAll) head (l.map Page.ref))
    (hok : ∀ p ∈ l, PageOk h p) (hfuel : l.length ≤ fuel) :
    (findPage h ptr fuel head = .ok none ∧ ∀ p ∈ l, ¬ p.Holds ptr) ∨
      ∃ p ∈ l, findPage h ptr fuel head = .ok (some p.ref) ∧ p.Holds ptr := by
  induction l generalizing fuel head with
  | nil =>
    rw [List.map_nil,links_nil] at hl
    subst hl
    exact .inl ⟨by cases fuel <;> rfl,nofun⟩
  | cons p l ih =>
    rw [List.map_cons,links_cons] at hl
    obtain ⟨rfl,hl⟩ := hl
    obtain ⟨fuel,rfl⟩ : ∃ k, fuel = k + 1 := ⟨fuel - 1,by simp at hfuel; omega⟩
    have hp := hok p List.mem_cons_self
    have hend : u32 ((p.addr : Int) + pageSize) = p.addr + pageSize := by
      rw [← Nat.cast_add]
      exact u32_of_nat hp.top
    have hstep : findPage h ptr (fuel + 1) (some p.ref) =
        if ptr ≥ p.addr ∧ ptr < p.addr + pageSize then .ok (some p.ref)
        else findPage h ptr fuel (h.pagerefs p.ref).nextAll := by
      rw [findPage,hp.pageaddr,hp.blocktype,assert_of (decide_eq_true hp.type),hend]
      rfl
    rw [hstep]
    by_cases hin : ptr ≥ p.addr ∧ ptr < p.addr + pageSize
    · rw [if_pos hin]
      exact .inr ⟨p,List.mem_cons_self,rfl,hin⟩
    · rw [if_neg hin]
      have hlen : l.length ≤ fuel := by simpa using hfuel
      rcases ih hl (fun q hq => hok q (List.mem_cons_of_mem _ hq)) hlen with
        ⟨hnone,hall⟩ | ⟨q,hq,hsome,hholds⟩
      · exact .inl ⟨hnone,fun q hq => (List.mem_cons.mp hq).elim (fun heq => heq ▸ hin) (hall q)⟩
      · exact .inr ⟨q,List.mem_cons_of_mem _ hq,hsome,hholds⟩

theorem Rep.holds_unique (hr : Rep h ps) {p q : Page} (hp : p ∈ ps) (hq : q ∈ ps)
    (hpx : p.Holds ptr) (hqx : q.Holds ptr) : p = q := by
  have haddr : p.addr = q.addr := by
    have h1 := (hr.page p hp).aligned
    have h2 := (hr.page q hq).aligned
    unfold Page.Holds pageSize at *
    omega
  exact List.inj_on_of_nodup_map hr.apart hp hq haddr

theorem findPage_none (hr : Rep h ps) (hout : ∀ p ∈ ps, ¬ p.Holds ptr) :
    findPage h ptr npagerefs h.allbase = .ok none := by
  rcases findPage_from hr.all hr.page hr.length_le with ⟨hnone,-⟩ | ⟨p,hp,-,hholds⟩
  · exact hnone
  · exact absurd hholds (hout p hp)

theorem findPage_some (hr : Rep h ps) {p : Page} (hp : p ∈ ps) (hholds : p.Holds ptr) :
    findPage h ptr npagerefs h.allbase = .ok (some p.ref) := by
  rcases findPage_from hr.all hr.page hr.length_le with ⟨-,hall⟩ | ⟨q,hq,hsome,hqx⟩
  · exact absurd hholds (hall p hp)
  · rw [hsome,hr.holds_unique hq hp hqx hholds]

end

section

theorem fillDeadbeef_of_outside {m : Bytes.Mem} {ptr n x : Nat} (hx : x < ptr ∨ ptr + 4 * n ≤ x) :
    fillDeadbeef m ptr n x = m x := by
  induction n generalizing m ptr with
  | zero => rfl
  | succ n ih =>
    rw [fillDeadbeef,ih (by omega)]
    exact Bytes.store32_of_outside (by omega)

end

section
variable {h : Heap} {p : Page} {xs ys : List Page}

theorem erase_ref (hnd : ((xs ++ p :: ys).map Page.ref).Nodup) :
    ((xs ++ p :: ys).map Page.ref).erase p.ref = (xs ++ ys).map Page.ref := by
  simp only [List.map_append,List.map_cons] at hnd ⊢
  obtain ⟨hnot,-⟩ := List.nodup_middle.mp hnd |> List.nodup_cons.mp
  rw [List.mem_append,not_or] at hnot
  rw [List.erase_append_right _ hnot.1,List.erase_cons_head]

theorem filter_type_refs (hnd : ((xs ++ p :: ys).map Page.ref).Nodup) :
    (((xs ++ p :: ys).filter (·.type = p.type)).map Page.ref).erase p.ref =
      ((xs ++ ys).filter (·.type = p.type)).map Page.ref := by
  have hnd' : (((xs ++ p :: ys).filter (·.type = p.type)).map Page.ref).Nodup :=
    hnd.sublist (List.filter_sublist.map _)
  simp only [List.filter_append,List.filter_cons,decide_true,if_true] at hnd' ⊢
  exact erase_ref hnd'

theorem removeLists_spec (hr : Rep h (xs ++ p :: ys)) :
    ∃ h', removeLists h p.ref p.type = .ok h' ∧ Rep (h'.drop p.ref) (xs ++ ys) ∧
      h'.mem = h.mem ∧ h'.inuse = h.inuse := by
  have hp := hr.page p (by simp)
  have hrefs := hr.nodup
  have hlen : ((xs ++ p :: ys).map Page.ref).length ≤ npagerefs := by
    rw [List.length_map]
    exact hr.length_le
  have hsub := (List.filter_sublist (p := (·.type = p.type)) (l := xs ++ p :: ys)).map Page.ref
  obtain ⟨c,hc,hclinks,hcsame⟩ := unlink_spec (x := p.ref)
    (c := ⟨h.sizebases p.type,fun q => (h.pagerefs q).nextSamesize⟩) (hr.same _ hp.type)
    (hrefs.sublist hsub) (Nat.le_trans hsub.length_le hlen)
  obtain ⟨d,hd,hdlinks,hdsame⟩ := unlink_spec (x := p.ref)
    (c := ⟨h.allbase,fun q => (h.pagerefs q).nextAll⟩) hr.all hrefs hlen
  rw [filter_type_refs hrefs] at hclinks
  rw [erase_ref hrefs] at hdlinks
  refine ⟨{ h with
    sizebases := update h.sizebases p.type c.head
    allbase := d.head
    pagerefs := fun q => { h.pagerefs q with nextSamesize := c.next q, nextAll := d.next q } },
    ?_,?_,rfl,rfl⟩
  · unfold removeLists
    rw [assert_of (decide_eq_true hp.type),hc]
    simp only [bind,Except.bind,hd]
  · have hin (q : Page) (hq : q ∈ xs ++ ys) := hr.others hq
    refine ⟨fun q hq => hr.refs q (hin q hq).1,?_,fun r hlt => ?_,words_drop hr.words,hdlinks,
      fun t ht => ?_,fun q hq => ?_,?_⟩
    · rw [← erase_ref hrefs]
      exact hrefs.erase _
    · rw [refUsed_drop,← erase_ref hrefs,hrefs.mem_erase_iff,← hr.bits r hlt]
      simp [Heap.refUsed,and_comm]
    · by_cases htype : t = p.type
      · subst htype
        simpa [Heap.drop] using hclinks
      · have hlist : (xs ++ p :: ys).filter (·.type = t) = (xs ++ ys).filter (·.type = t) := by
          simp [Ne.symm htype]
        have hold := hr.same t ht
        rw [hlist] at hold
        simp only [Heap.drop,update_of_ne htype]
        refine hold.congr fun b hb => hcsame b fun hb' => ?_
        obtain ⟨q,hq,rfl⟩ := List.mem_map.mp hb
        obtain ⟨q',hq',heq⟩ := List.mem_map.mp hb'
        rw [← hlist] at hq
        obtain ⟨hq,hqt⟩ := List.mem_filter.mp hq
        obtain ⟨hq',hqt'⟩ := List.mem_filter.mp hq'
        have := List.inj_on_of_nodup_map hrefs hq' hq heq
        subst this
        simp only [decide_eq_true_eq] at hqt hqt'
        exact htype (hqt.symm.trans hqt')
    · exact (hr.page q (hin q hq).1).transfer rfl rfl rfl fun _ _ _ => rfl
    · have hap := hr.apart
      simp only [List.map_append,List.map_cons] at hap ⊢
      exact (List.nodup_cons.mp (List.nodup_middle.mp hap)).2

end

section Kfree
variable {h : Heap} {p : Page} {xs ys : List Page} {a : Nat}

section
variable {free : List Nat} (ht : p.type < nsizes) (hnd : free.Nodup)
  (hblock : ∀ b ∈ free, p.IsBlock b)
include ht hnd hblock

theorem Page.free_subperm : free.Subperm (Page.fresh p.ref p.addr p.type).free :=
  List.subperm_of_subset hnd fun b hb => (fresh_all ht).mpr (hblock b hb)

theorem Page.length_free_le : free.length ≤ pageSize / sizeOf p.type :=
  @length_fresh p.ref p.addr _ ht ▸ (p.free_subperm ht hnd hblock).length_le

theorem Page.all_free (hlen : free.length = pageSize / sizeOf p.type) {b : Nat} (hb : p.IsBlock b) :
    b ∈ free := by
  have hfull : (Page.fresh p.ref p.addr p.type).free.length = free.length :=
    (length_fresh ht).trans hlen.symm
  have hperm := (p.free_subperm ht hnd hblock).perm_of_length_le (Nat.le_of_eq hfull)
  exact hperm.mem_iff.mpr ((fresh_all ht).mpr hb)

theorem Page.exists_used (hlen : free.length ≠ pageSize / sizeOf p.type) :
    ∃ b, p.IsBlock b ∧ b ∉ free := by
  by_contra hnone
  have hsub : (Page.fresh p.ref p.addr p.type).free ⊆ free := fun b hb =>
    not_not.mp fun hnot => hnone ⟨b,(fresh_all ht).mp hb,hnot⟩
  have hfresh : (Page.fresh p.ref p.addr p.type).free.Nodup :=
    nodup_blocksDown (Nat.lt_of_lt_of_le (by decide) (sizeOf_cases ht).1)
  have hge := (List.subperm_of_subset hfresh hsub).length_le
  rw [length_fresh ht] at hge
  exact hlen (Nat.le_antisymm (p.length_free_le ht hnd hblock) hge)

end

def Heap.returned (h : Heap) (p : Page) (a : Nat) : Heap :=
  { h.setPageref p.ref { h.pagerefs p.ref with
      freelistOffset := a - p.addr, nfree := p.free.length + 1 } with
    mem := store32 (fillDeadbeef h.mem a (sizeOf p.type / 4)) a (p.free.head?.getD 0) }

theorem returned_mem (ht : p.type < nsizes) {x : Nat} (hx : x < a ∨ a + p.size ≤ x) :
    (h.returned p a).mem x = h.mem x := by
  obtain ⟨h16,-,-,h4⟩ := sizeOf_cases ht
  unfold Page.size at hx
  have hout : x < a ∨ a + 4 ≤ x := by omega
  exact (Bytes.store32_of_outside hout).trans (fillDeadbeef_of_outside (by omega))

theorem returned_next (hp : PageOk h p) :
    nextPtr (h.returned p a).mem a = p.free.head? := by
  have htop := hp.top
  have hpos := hp.pos
  have hload (hv : p.free.head?.getD 0 < 2 ^ 32) :
      load32 (h.returned p a).mem a = p.free.head?.getD 0 := Bytes.load32_store32 hv
  unfold nextPtr
  cases hfree : p.free with
  | nil => rw [hload (by rw [hfree]; decide),hfree]; rfl
  | cons b rest =>
    obtain ⟨hlo,hhi,-⟩ := hp.block b (hfree ▸ List.mem_cons_self)
    rw [hload (by rw [hfree]; exact (show b < 2 ^ 32 by omega)),hfree]
    exact if_neg (by rw [List.head?_cons,Option.getD_some]; omega)

section
variable (hr : Rep h (xs ++ p :: ys)) (ha : p.IsBlock a) (hnot : a ∉ p.free)
include hr ha hnot

theorem Rep.returned : Rep (h.returned p a) (xs ++ { p with free := a :: p.free } :: ys) := by
  have hp := hr.page p (by simp)
  have hfit := block_fits hp.type ha
  have hlo := ha.1
  refine hr.update rfl rfl rfl (fun r hne => update_of_ne hne _ _) ?_ ?_
    (fun x hx => returned_mem hp.type (by omega))
    ⟨hp.type,hp.aligned,hp.pos,hp.top,?_,?_,?_,?_,
      List.nodup_cons.mpr ⟨hnot,hp.nodup⟩,?_⟩
  · simp [Heap.returned,Heap.setPageref]
  · simp [Heap.returned,Heap.setPageref]
  · simpa [Heap.returned,Heap.setPageref] using hp.pab
  · simp [Heap.returned,Heap.setPageref,Page.offset]
  · simp [Heap.returned,Heap.setPageref]
  · refine Links.push hp.links (returned_next hp) fun b hb => ?_
    have hbb := hp.block b hb
    have h16 := (sizeOf_cases hp.type).1
    have hapart := blocks_apart hp.type ha hbb fun heq => hnot (heq ▸ hb)
    unfold Page.size at hapart
    unfold nextPtr
    rw [Bytes.load32_congr fun x _ _ => returned_mem hp.type (by unfold Page.size; omega)]
  · intro b hb
    rcases List.mem_cons.mp hb with rfl | hb
    · exact ha
    · exact hp.block b hb

theorem subpageKfree_eq :
    subpageKfree h a =
      if p.free.length + 1 = pageSize / sizeOf p.type then
        (removeLists (h.returned p a) p.ref p.type).bind fun h₂ =>
          (freepageref h₂ p.ref).bind fun h₃ => .ok (some (h₃, [.free p.addr]))
      else .ok (some (h.returned p a, [])) := by
  have hp := hr.page p (by simp)
  obtain ⟨hlo,hhi,hmod⟩ := ha
  have htop := hp.top
  have hoff : u32 ((a : Int) - p.addr) = a - p.addr := u32_sub hlo (by omega)
  have hgood : ¬ (a - p.addr ≥ pageSize ∨ (a - p.addr) % sizeOf p.type ≠ 0) := by
    unfold Page.size at hmod
    omega
  have hfla : u32 ((p.addr : Int) + (a - p.addr : Nat)) = a := by
    rw [← Nat.cast_add,Nat.add_sub_cancel' hlo]
    exact u32_of_nat (by omega)
  have h16 : u16 ((a - p.addr : Nat) : Int) = a - p.addr := by
    unfold pageSize at hhi
    exact u16_of_lt (by omega)
  have hnd : (a :: p.free).Nodup := List.nodup_cons.mpr ⟨hnot,hp.nodup⟩
  have hall : ∀ b ∈ a :: p.free, p.IsBlock b := fun b hb =>
    (List.mem_cons.mp hb).elim (fun heq => heq ▸ ⟨hlo,hhi,hmod⟩) (hp.block b)
  have hle := Page.length_free_le hp.type hnd hall
  rw [List.length_cons] at hle
  have h256 := (blocks_of_type hp.type).2.1
  have hnf : u16 (((h.pagerefs p.ref).nfree : Int) + 1) = p.free.length + 1 := by
    rw [hp.nfree]
    exact u16_of_lt (n := p.free.length + 1) (by omega)
  have hnext : (if (h.pagerefs p.ref).freelistOffset = invalidOffset then 0
      else u32 ((p.addr : Int) + (h.pagerefs p.ref).freelistOffset)) = p.free.head?.getD 0 := by
    rw [hp.offset]
    unfold Page.offset
    cases hfree : p.free with
    | nil => rfl
    | cons b rest =>
      obtain ⟨hblo,hbhi,-⟩ := hp.block b (hfree ▸ List.mem_cons_self)
      have hne : b - p.addr ≠ invalidOffset := by
        unfold invalidOffset
        unfold pageSize at hbhi
        omega
      rw [if_neg hne,← Nat.cast_add,Nat.add_sub_cancel' hblo]
      exact u32_of_nat (by omega)
  have hself (pr : Pageref) : (h.setPageref p.ref pr).pagerefs p.ref = pr :=
    update_self _ _ _
  unfold subpageKfree
  rw [findPage_some hr (by simp) (show p.Holds a from ⟨hlo,hhi⟩)]
  simp only [bind,Except.bind,hp.pageaddr,hp.blocktype,hoff,hfla,h16,hnf,hnext,hself,
    if_neg hgood]
  rw [assert_of (decide_eq_true hle)]
  rfl

theorem subpageKfree_spec :
    (p.free.length + 1 = pageSize / sizeOf p.type ∧ ∃ h',
      subpageKfree h a = .ok (some (h', [.free p.addr])) ∧ Rep h' (xs ++ ys)) ∨
    p.free.length + 1 ≠ pageSize / sizeOf p.type ∧ ∃ h', subpageKfree h a = .ok (some (h', [])) ∧
      Rep h' (xs ++ { p with free := a :: p.free } :: ys) := by
  have hret := hr.returned ha hnot
  rw [subpageKfree_eq hr ha hnot]
  by_cases hfull : p.free.length + 1 = pageSize / sizeOf p.type
  · obtain ⟨h₂,hrm,hr₂,-,hinuse⟩ := removeLists_spec hret
    have href := hret.refs _ (List.mem_append_right xs List.mem_cons_self)
    have hused : h₂.refUsed p.ref = true := by
      have hbit := (hret.bits _ href).mpr (List.mem_map_of_mem (by simp))
      unfold Heap.refUsed at hbit ⊢
      rw [hinuse]
      exact hbit
    have hrm' : removeLists (h.returned p a) p.ref p.type = .ok h₂ := hrm
    rw [if_pos hfull,hrm',Except.bind,freepageref_spec href hused]
    exact .inl ⟨hfull,_,rfl,hr₂⟩
  · rw [if_neg hfull]
    exact .inr ⟨hfull,_,rfl,hret⟩

end

theorem subpageKfree_none {ps : List Page} (hr : Rep h ps) (hout : ∀ p ∈ ps, ¬ p.Holds a) :
    subpageKfree h a = .ok none := by
  unfold subpageKfree
  rw [findPage_none hr hout]
  rfl

end Kfree

end OS161.Kheap
