import OS161.Kheap.Alloc

namespace OS161.Kheap

open Bytes (load32 store32)
open Linked

def blocksDown (fla size : Nat) : Nat → List Nat
  | 0 => [fla]
  | n + 1 => (fla + (n + 1) * size) :: blocksDown fla size n

def Page.fresh (ref addr type : Nat) : Page :=
  ⟨ref, addr, type, blocksDown addr (sizeOf type) (pageSize / sizeOf type - 1)⟩

section
variable {fla size n a : Nat}

theorem mem_blocksDown : a ∈ blocksDown fla size n ↔ ∃ i, i ≤ n ∧ a = fla + i * size := by
  induction n with
  | zero =>
    rw [blocksDown,List.mem_singleton]
    constructor
    · rintro rfl
      exact ⟨0,Nat.le_refl 0,by simp⟩
    · rintro ⟨i,hi,rfl⟩
      simp [Nat.le_zero.mp hi]
  | succ n ih =>
    rw [blocksDown,List.mem_cons,ih]
    constructor
    · rintro (rfl | ⟨i,hi,rfl⟩)
      · exact ⟨n + 1,Nat.le_refl _,rfl⟩
      · exact ⟨i,by omega,rfl⟩
    · rintro ⟨i,hi,rfl⟩
      rcases Nat.eq_or_lt_of_le hi with rfl | hlt
      · exact .inl rfl
      · exact .inr ⟨i,by omega,rfl⟩

theorem length_blocksDown : (blocksDown fla size n).length = n + 1 := by
  induction n with
  | zero => rfl
  | succ n ih => rw [blocksDown,List.length_cons,ih]

theorem head_blocksDown : (blocksDown fla size n).head? = some (fla + n * size) := by
  cases n with
  | zero => simp [blocksDown]
  | succ n => rfl

theorem below_of_mem_blocksDown (ha : a ∈ blocksDown fla size n) : a + size ≤ fla + (n + 1) * size := by
  obtain ⟨i,hi,rfl⟩ := mem_blocksDown.mp ha
  have hle : (i + 1) * size ≤ (n + 1) * size := Nat.mul_le_mul_right size (by omega)
  have hmul : (i + 1) * size = i * size + size := Nat.succ_mul i size
  omega

theorem nodup_blocksDown (hsize : 0 < size) : (blocksDown fla size n).Nodup := by
  induction n with
  | zero => exact List.nodup_singleton _
  | succ n ih =>
    rw [blocksDown,List.nodup_cons]
    refine ⟨fun hin => ?_,ih⟩
    have := below_of_mem_blocksDown hin
    omega

end

section
variable {fla size : Nat}

theorem chainBlocks_spec (hsize : 4 ≤ size) (hpos : 0 < fla) (n : Nat) (m : Bytes.Mem)
    (htop : fla + n * size + 4 < 2 ^ 32) :
    ∃ m', chainBlocks fla size n m = .ok m' ∧
      Links (nextPtr m') (some (fla + n * size)) (blocksDown fla size n) ∧
      ∀ x, x < fla ∨ fla + n * size + 4 ≤ x → m' x = m x := by
  induction n with
  | zero =>
    refine ⟨store32 m fla 0,rfl,?_,fun x hx => ?_⟩
    · rw [blocksDown,links_cons]
      refine ⟨by simp,?_⟩
      unfold nextPtr
      rw [Bytes.load32_store32 (by decide),if_pos rfl]
      exact links_nil.mpr rfl
    · exact Bytes.store32_of_outside (by omega)
  | succ n ih =>
    have hmul : (n + 1) * size = n * size + size := Nat.succ_mul n size
    obtain ⟨m',hok,hlinks,hout⟩ := ih (by omega)
    have hfl : u32 ((fla : Int) + ((n : Int) + 1) * size) = fla + (n + 1) * size := by
      have hcast : (fla : Int) + ((n : Int) + 1) * size = ((fla + (n + 1) * size : Nat) : Int) := by
        push_cast
        rfl
      rw [hcast]
      exact u32_of_nat (by omega)
    have hprev : u32 ((fla : Int) + (n : Int) * size) = fla + n * size := by
      have hcast : (fla : Int) + (n : Int) * size = ((fla + n * size : Nat) : Int) := by
        push_cast
        rfl
      rw [hcast]
      exact u32_of_nat (by omega)
    have hload : load32 (store32 m' (fla + (n + 1) * size) (fla + n * size)) (fla + (n + 1) * size) =
        fla + n * size := Bytes.load32_store32 (by omega)
    refine ⟨store32 m' (fla + (n + 1) * size) (fla + n * size),?_,?_,fun x hx => ?_⟩
    · rw [chainBlocks,hok]
      simp only [bind,Except.bind,hfl,hprev,hload]
      rw [assert_of (decide_eq_true (by omega))]
    · refine Links.push hlinks ?_ fun b hb => ?_
      · unfold nextPtr
        rw [hload,if_neg (by omega)]
      · have := below_of_mem_blocksDown hb
        unfold nextPtr
        rw [Bytes.load32_store32_of_disjoint (by omega)]
    · rw [Bytes.store32_of_outside (by omega)]
      exact hout x (by omega)

end

section Fresh
variable {h : Heap} {ps : List Page} {r page t : Nat}

theorem blocks_of_type (ht : t < nsizes) :
    0 < pageSize / sizeOf t ∧ pageSize / sizeOf t ≤ 256 ∧
      pageSize / sizeOf t * sizeOf t = pageSize := by
  obtain ⟨h16,h2048,hdvd,-⟩ := sizeOf_cases ht
  have hmul := Nat.div_mul_cancel (Nat.dvd_of_mod_eq_zero hdvd)
  refine ⟨Nat.div_pos (by unfold pageSize; omega) (by omega),?_,hmul⟩
  exact Nat.div_le_of_le_mul (by unfold pageSize; omega)

theorem fresh_all (ht : t < nsizes) {a : Nat} :
    a ∈ (Page.fresh r page t).free ↔ (Page.fresh r page t).IsBlock a := by
  obtain ⟨hpos,-,hmul⟩ := blocks_of_type ht
  have h16 := (sizeOf_cases ht).1
  have hblock : (Page.fresh r page t).IsBlock a ↔
      page ≤ a ∧ a < page + pageSize ∧ (a - page) % sizeOf t = 0 := Iff.rfl
  rw [hblock]
  refine mem_blocksDown.trans ⟨?_,?_⟩
  · rintro ⟨i,hi,rfl⟩
    have hle : (i + 1) * sizeOf t ≤ pageSize / sizeOf t * sizeOf t :=
      Nat.mul_le_mul_right _ (by omega)
    have hsucc : (i + 1) * sizeOf t = i * sizeOf t + sizeOf t := Nat.succ_mul i _
    exact ⟨Nat.le_add_right _ _,by omega,by rw [Nat.add_sub_cancel_left,Nat.mul_mod_left]⟩
  · rintro ⟨hlo,hhi,hmod⟩
    refine ⟨(a - page) / sizeOf t,?_,?_⟩
    · have : (a - page) / sizeOf t < pageSize / sizeOf t :=
        Nat.div_lt_of_lt_mul (by rw [Nat.mul_comm,hmul]; omega)
      omega
    · rw [Nat.div_mul_cancel (Nat.dvd_of_mod_eq_zero hmod)]
      omega

theorem length_fresh (ht : t < nsizes) :
    (Page.fresh r page t).free.length = pageSize / sizeOf t := by
  obtain ⟨hpos,-,-⟩ := blocks_of_type ht
  exact length_blocksDown.trans (by omega)

theorem initPage_eq {n : Nat} {m' : Bytes.Mem} (hn : pageSize / sizeOf t = n + 1) (hlt : n < 256)
    (hspan : n * sizeOf t < pageSize) (htop : page + pageSize < 2 ^ 32)
    (hchain : chainBlocks page (sizeOf t) n h.mem = .ok m') :
    initPage h r page t = .ok { h.setPageref r
      { nextSamesize := h.sizebases t
        nextAll := h.allbase
        pageaddrAndBlocktype := mkpab page t
        freelistOffset := n * sizeOf t
        nfree := n + 1 } with
      mem := m'
      sizebases := Function.update h.sizebases t (some r)
      allbase := some r } := by
  have hnf : u16 ((n + 1 : Nat) : Int) = n + 1 := u16_of_lt (by omega)
  have hfl : u32 ((page : Int) + (((n + 1 : Nat) : Int) - 1) * sizeOf t) = page + n * sizeOf t := by
    have hcast : (page : Int) + (((n + 1 : Nat) : Int) - 1) * sizeOf t =
        ((page + n * sizeOf t : Nat) : Int) := by
      push_cast
      rw [Int.add_sub_cancel]
    rw [hcast]
    exact u32_of_nat (by omega)
  have hoff : u16 (u32 (((page + n * sizeOf t : Nat) : Int) - page)) = n * sizeOf t := by
    rw [u32_sub (Nat.le_add_right _ _) (by omega),Nat.add_sub_cancel_left]
    unfold pageSize at hspan
    exact u16_of_lt (by omega)
  unfold initPage
  have hdiv : (pageSize : Int) / sizeOf t = ((n + 1 : Nat) : Int) := by
    rw [← hn]
    rfl
  simp only [hdiv,hnf,Nat.add_sub_cancel,hchain,bind,Except.bind,hfl,hoff,decide_true,
    assert_true]

theorem Rep.cons {h' : Heap} {p : Page} (hr : Rep h ps) (href : p.ref < npagerefs)
    (hfree : h.refUsed p.ref = false) (hnew : ∀ q ∈ ps, q.addr ≠ p.addr)
    (hinuse : h'.inuse = (h.take p.ref).inuse) (hall : h'.allbase = some p.ref)
    (hna : (h'.pagerefs p.ref).nextAll = h.allbase)
    (hsame : h'.sizebases = Function.update h.sizebases p.type (some p.ref))
    (hns : (h'.pagerefs p.ref).nextSamesize = h.sizebases p.type)
    (hrefs : ∀ r, r ≠ p.ref → h'.pagerefs r = h.pagerefs r)
    (hmem : ∀ x, x < p.addr ∨ p.addr + pageSize ≤ x → h'.mem x = h.mem x)
    (hp : PageOk h' p) : Rep h' (p :: ps) := by
  have hnot : p.ref ∉ ps.map Page.ref := fun hin => by
    have := (hr.bits _ href).mpr hin
    rw [hfree] at this
    cases this
  have hother (r : Nat) (hin : r ∈ ps.map Page.ref) : h'.pagerefs r = h.pagerefs r :=
    hrefs r fun heq => hnot (heq ▸ hin)
  have hsub (t : Nat) (r : Nat) (hin : r ∈ (ps.filter (·.type = t)).map Page.ref) :
      r ∈ ps.map Page.ref := (List.filter_sublist.map _).subset hin
  refine ⟨?_,?_,fun r hlt => ?_,fun i => by rw [hinuse]; exact words_take hr.words i,?_,
    fun t ht => ?_,?_,?_⟩
  · intro q hq
    exact (List.mem_cons.mp hq).elim (fun heq => heq ▸ href) (hr.refs q)
  · rw [List.map_cons,List.nodup_cons]
    exact ⟨hnot,hr.nodup⟩
  · have hused : h'.refUsed r = (h.take p.ref).refUsed r := by
      unfold Heap.refUsed
      rw [hinuse]
    rw [hused,refUsed_take,Bool.or_eq_true,hr.bits r hlt,decide_eq_true_iff,List.map_cons,
      List.mem_cons]
    exact or_comm
  · rw [List.map_cons,hall]
    exact Links.push hr.all hna fun r hin => by rw [hother r hin]
  · rw [hsame]
    by_cases htype : p.type = t
    · subst htype
      rw [Function.update_self,List.filter_cons_of_pos (by simp),List.map_cons]
      exact Links.push (hr.same _ ht) hns fun r hin => by rw [hother r (hsub _ r hin)]
    · rw [Function.update_of_ne (Ne.symm htype),List.filter_cons_of_neg (by simpa using htype)]
      exact (hr.same t ht).congr fun r hin => by rw [hother r (hsub _ r hin)]
  · intro q hq
    rcases List.mem_cons.mp hq with rfl | hq
    · exact hp
    · have hok := hr.page q hq
      refine hok.congr (hother _ (List.mem_map_of_mem hq)) fun x hlo hhi => hmem x ?_
      have := pages_apart hok.aligned hp.aligned (hnew q hq)
      omega
  · rw [List.map_cons,List.nodup_cons]
    refine ⟨fun hin => ?_,hr.apart⟩
    obtain ⟨q,hq,heq⟩ := List.mem_map.mp hin
    exact hnew q hq heq

structure Granted (ps : List Page) (page : Nat) : Prop where
  aligned : page % pageSize = 0
  pos : 0 < page
  top : page + pageSize < 2 ^ 32
  apart : ∀ q ∈ ps, q.addr ≠ page

theorem initPage_spec (hr : Rep h ps) (href : r < npagerefs) (hfree : h.refUsed r = false)
    (ht : t < nsizes) (hg : Granted ps page) :
    ∃ h', initPage (h.take r) r page t = .ok h' ∧ Rep h' (Page.fresh r page t :: ps) ∧
      ∀ x, x < page ∨ page + pageSize ≤ x → h'.mem x = h.mem x := by
  obtain ⟨hpos,hle,hmul⟩ := blocks_of_type ht
  obtain ⟨h16,-,-,-⟩ := sizeOf_cases ht
  have htop := hg.top
  have halign := hg.aligned
  obtain ⟨n,hn⟩ : ∃ n, pageSize / sizeOf t = n + 1 := ⟨pageSize / sizeOf t - 1,by omega⟩
  have hspan : n * sizeOf t + sizeOf t = pageSize := by
    rw [← Nat.succ_mul,← hmul,hn]
  have hroom : page + n * sizeOf t + 4 < 2 ^ 32 := by omega
  obtain ⟨m',hchain,hlinks,hout⟩ :=
    chainBlocks_spec (show 4 ≤ sizeOf t by omega) hg.pos n h.mem hroom
  have hfresh : (Page.fresh r page t).free = blocksDown page (sizeOf t) n := by
    unfold Page.fresh
    rw [hn,Nat.add_sub_cancel]
  refine ⟨_,initPage_eq hn (by omega) (by omega) htop hchain,?_,fun x hx => hout x (by omega)⟩
  refine hr.cons href hfree hg.apart rfl rfl ?_ rfl ?_ ?_ (fun x hx => hout x ?_)
    ⟨ht,halign,hg.pos,htop,?_,?_,?_,?_,?_,fun a ha => (fresh_all ht).mp ha⟩
  · simp [Heap.setPageref,Heap.take,Page.fresh]
  · simp [Heap.setPageref,Heap.take,Page.fresh]
  · intro s hne
    exact Function.update_of_ne hne _ _
  · have : (Page.fresh r page t).addr = page := rfl
    omega
  · have hpab : mkpab page t = page + t := by
      unfold mkpab
      unfold nsizes at ht
      unfold pageSize at *
      omega
    simp [Heap.setPageref,Page.fresh,hpab]
  · have hoff : (Page.fresh r page t).offset = n * sizeOf t := by
      unfold Page.offset
      rw [hfresh]
      cases n with
      | zero => simp [blocksDown,Page.fresh]
      | succ n => simp [blocksDown,Page.fresh]
    simp [Heap.setPageref,hoff,show (Page.fresh r page t).ref = r from rfl]
  · rw [length_fresh ht,hn]
    simp [Heap.setPageref,Page.fresh]
  · rw [hfresh,head_blocksDown]
    exact hlinks
  · rw [hfresh]
    exact nodup_blocksDown (by omega)

end Fresh

section
variable {h : Heap} {ps : List Page} {sz page : Nat}

theorem blocktype_spec (hsz : sz < largestSubpageSize) :
    ∃ t, blocktype sz = .ok t ∧ t < nsizes ∧ sz ≤ sizeOf t := by
  unfold blocktype
  cases hfind : sizes.findIdx? (sz ≤ ·) with
  | none =>
    rw [List.findIdx?_eq_none_iff] at hfind
    have := hfind 2048 (by decide)
    unfold largestSubpageSize at hsz
    simp only [decide_eq_false_iff_not] at this
    omega
  | some t =>
    obtain ⟨hlt,hle,-⟩ := List.findIdx?_eq_some_iff_getElem.mp hfind
    refine ⟨t,rfl,hlt,?_⟩
    unfold sizeOf
    rw [List.getD_eq_getElem?_getD,List.getElem?_eq_getElem hlt]
    exact of_decide_eq_true hle

inductive Served (h : Heap) (ps : List Page) (page t : Nat) : Nat × Heap × List Kpages → Prop
  | refused {h' : Heap} {ks : List Kpages} (hr : Rep h' ps) (hm : h'.mem = h.mem)
      (hk : ks = [] ∨ ks = [.alloc 1 0]) : Served h ps page t (0, h', ks)
  | reused {h' : Heap} {xs ys : List Page} {p : Page} {a : Nat} {rest : List Nat}
      (hps : ps = xs ++ p :: ys) (ht : p.type = t) (hfree : p.free = a :: rest)
      (hr : Rep h' (xs ++ { p with free := rest } :: ys)) (hm : h'.mem = h.mem) :
      Served h ps page t (a, h', [])
  | opened {h' : Heap} {r a : Nat} {rest : List Nat} (hg : Granted ps page)
      (hfree : (Page.fresh r page t).free = a :: rest)
      (hr : Rep h' ({ Page.fresh r page t with free := rest } :: ps))
      (hm : ∀ x, x < page ∨ page + pageSize ≤ x → h'.mem x = h.mem x) :
      Served h ps page t (a, h', [.alloc 1 page])

theorem Rep.reserve (hr : Rep h ps) {r : Nat} (hfree : h.refUsed r = false) :
    Rep ((h.take r).drop r) ps := by
  refine ⟨hr.refs,hr.nodup,fun s hs => ?_,words_drop (words_take hr.words),hr.all,hr.same,
    fun p hp => (hr.page p hp).congr rfl fun _ _ _ => rfl,hr.apart⟩
  rw [refUsed_drop,refUsed_take,← hr.bits s hs]
  by_cases heq : s = r
  · subst heq
    simp [hfree]
  · simp [heq]

theorem subpageKmalloc_spec (hr : Rep h ps) (hsz : sz < largestSubpageSize)
    (hpage : page = 0 ∨ Granted ps page) :
    ∃ t res, subpageKmalloc h sz page = .ok res ∧ Served h ps page t res ∧ t < nsizes ∧
      sz ≤ sizeOf t := by
  obtain ⟨t,hbt,ht,hle⟩ := blocktype_spec hsz
  unfold subpageKmalloc
  simp only [hbt,bind,Except.bind]
  rcases findFree_spec hr ht with ⟨hnone,-⟩ | ⟨p,hp,hsome,htype,hne⟩
  · simp only [hnone]
    rcases allocpageref_spec hr.words with hfull | ⟨r,hok,href,hbit⟩
    · simp only [hfull]
      exact ⟨t,_,rfl,.refused hr rfl (.inl rfl),ht,hle⟩
    · simp only [hok]
      rcases hpage with rfl | hg
      · have hdrop : freepageref (h.take r) r = .ok ((h.take r).drop r) := by
          refine freepageref_spec href ?_
          rw [refUsed_take]
          simp
        simp only [if_true,hdrop]
        exact ⟨t,_,rfl,.refused (hr.reserve hbit) rfl (.inr rfl),ht,hle⟩
      · obtain ⟨h₂,hinit,hr₂,hm₂⟩ := initPage_spec hr href hbit ht hg
        rw [if_neg (Nat.ne_of_gt hg.pos)]
        cases hfree : (Page.fresh r page t).free with
        | nil =>
          have hlen : (Page.fresh r page t).free.length = pageSize / sizeOf t := length_fresh ht
          rw [hfree,List.length_nil] at hlen
          exact absurd hlen (Nat.ne_of_lt (blocks_of_type ht).1)
        | cons a rest =>
          have hcons : Rep h₂ ([] ++ Page.fresh r page t :: ps) := hr₂
          obtain ⟨h',hdo,hr',hm'⟩ := doalloc_spec hcons hfree
          have hdo' : doalloc h₂ r = .ok (a, h') := hdo
          simp only [hinit,hdo']
          refine ⟨t,_,rfl,.opened hg hfree hr' fun x hx => ?_,ht,hle⟩
          rw [hm',hm₂ x hx]
  · simp only [hsome]
    obtain ⟨xs,ys,rfl⟩ := List.append_of_mem hp
    obtain ⟨a,rest,hfree⟩ := List.exists_cons_of_ne_nil hne
    obtain ⟨h',hdo,hr',hm'⟩ := doalloc_spec hr hfree
    simp only [hdo]
    exact ⟨t,_,rfl,.reused rfl htype hfree hr' hm',ht,hle⟩

end

end OS161.Kheap
