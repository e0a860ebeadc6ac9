import OS161.Kheap.Tracks
import OS161.Lib.Run

namespace OS161.Kheap

open Bytes (load32)
open Linked

structure Client where
  heap : Heap
  owned : List (Nat × Nat)
  live : List (Nat × Nat)
  stopped : Option Stop

inductive HeapOp where
  | kmalloc (sz page : Nat)
  | kfree (p : Nat)
  | write (x : Nat) (v : UInt8)
  deriving DecidableEq, Repr

def pagesWanted (sz : Nat) : Nat := if sz ≥ largestSubpageSize then npagesFor sz else 1

def Heap.empty (mem : Bytes.Mem) : Heap :=
  ⟨fun _ => ⟨none, none, 0, 0, 0⟩, fun _ => 0, fun _ => none, none, mem⟩

def Kpages.apply (owned : List (Nat × Nat)) : Kpages → List (Nat × Nat)
  | .alloc npages addr => if addr = 0 then owned else (addr, npages) :: owned
  | .free addr => owned.filter (·.1 ≠ addr)

namespace Client

def boot (mem : Bytes.Mem) : Client := ⟨Heap.empty mem, [], [], none⟩

def grants (s : Client) (npages page : Nat) : Bool :=
  page = 0 ∨ page % pageSize = 0 ∧ page + npages * pageSize < 2 ^ 32 ∧
    ∀ r ∈ s.owned, page + npages * pageSize ≤ r.1 ∨ r.1 + r.2 * pageSize ≤ page

def kmalloc (s : Client) (sz page : Nat) : Client :=
  match Kheap.kmalloc s.heap sz page with
  | .error e => { s with stopped := some e }
  | .ok (p, h, ks) =>
    { s with heap := h, owned := ks.foldl Kpages.apply s.owned,
             live := if p = 0 then s.live else (p, sz) :: s.live }

def kfree (s : Client) (p : Nat) : Client :=
  match Kheap.kfree s.heap p with
  | .error e => { s with stopped := some e }
  | .ok (h, ks) =>
    { s with heap := h, owned := ks.foldl Kpages.apply s.owned,
             live := s.live.filter (·.1 ≠ p) }

def write (s : Client) (x : Nat) (v : UInt8) : Client :=
  { s with heap := { s.heap with mem := Function.update s.heap.mem x v } }

def writable (s : Client) (x : Nat) : Bool :=
  (∃ e ∈ s.live, e.1 ≤ x ∧ x < e.1 + e.2) ∨
    ∀ r ∈ s.owned, x < r.1 ∨ r.1 + r.2 * pageSize ≤ x

def step (s : Client) (op : HeapOp) : Option Client :=
  if s.stopped ≠ none then none
  else
    match op with
    | .kmalloc sz page =>
      if sz ≤ 2 ^ 32 - 4096 ∧ s.grants (pagesWanted sz) page then some (s.kmalloc sz page)
      else none
    | .kfree p => if ∃ e ∈ s.live, e.1 = p then some (s.kfree p) else none
    | .write x v => if s.writable x then some (s.write x v) else none

end Client

structure Intact (s : Client) (ps : List Page) : Prop where
  running : s.stopped = none
  rep : Rep s.heap ps
  tracks : Tracks ps s.live s.owned
  busy : Busy ps

def GivenBack (s s' : Client) : HeapOp → Prop
  | .kfree p => ∀ r ∈ s.owned,
      (r ∉ s'.owned ↔ InRun r p ∧ ∀ e ∈ s.live, InRun r e.1 → e.1 = p)
  | _ => ∀ r ∈ s.owned, r ∈ s'.owned

section
variable {s : Client} {ps : List Page} {sz page : Nat}

theorem npagesFor_eq (hhi : sz ≤ 2 ^ 32 - 4096) : npagesFor sz = (sz + 4095) / 4096 := by
  have hu : u32 ((sz : Int) + pageSize - 1) = sz + 4095 := by
    have hcast : (sz : Int) + (pageSize : Nat) - 1 = ((sz + 4095 : Nat) : Int) := by
      unfold pageSize
      push_cast
      omega
    rw [hcast]
    exact u32_of_nat (by omega)
  unfold npagesFor
  rw [hu]
  rfl

theorem npagesFor_spec (hlo : largestSubpageSize ≤ sz) (hhi : sz ≤ 2 ^ 32 - 4096) :
    0 < npagesFor sz ∧ sz ≤ npagesFor sz * pageSize := by
  rw [npagesFor_eq hhi]
  unfold largestSubpageSize at hlo
  unfold pageSize
  omega

theorem grants_spec {n : Nat} (hn : 0 < n) (hg : s.grants n page = true) :
    page = 0 ∨ RunOk (page, n) ∧ ∀ r ∈ s.owned, Apart (page, n) r := by
  rcases of_decide_eq_true hg with h0 | ⟨halign,htop,hap⟩
  · exact .inl h0
  · by_cases hpos : page = 0
    · exact .inl hpos
    · exact .inr ⟨⟨halign,Nat.pos_of_ne_zero hpos,htop,hn⟩,hap⟩

theorem Tracks.granted {live owned : List (Nat × Nat)} (ht : Tracks ps live owned)
    (hrun : RunOk (page, 1)) (hap : ∀ r ∈ owned, Apart (page, 1) r) : Granted ps page := by
  refine ⟨hrun.aligned,hrun.pos,by simpa using hrun.top,fun q hq heq => ?_⟩
  have := hap _ (ht.pages q hq)
  unfold Apart pageSize at this
  omega

theorem busy_middle {xs ys : List Page} {p p' : Page} (hb : Busy (xs ++ p :: ys))
    (hp : ∃ a, p'.IsBlock a ∧ a ∉ p'.free) : Busy (xs ++ p' :: ys) := by
  intro q hq
  have hcase : q = p' ∨ q ∈ xs ++ p :: ys := by
    simp only [List.mem_append,List.mem_cons] at hq ⊢
    tauto
  rcases hcase with rfl | hq
  · exact hp
  · exact hb q hq

end

section
variable {s : Client} {ps : List Page} {sz page : Nat}

theorem Intact.kmalloc_big (hi : Intact s ps) (hlo : largestSubpageSize ≤ sz)
    (hhi : sz ≤ 2 ^ 32 - 4096) (hg : s.grants (pagesWanted sz) page = true) :
    Intact (s.kmalloc sz page) ps ∧ GivenBack s (s.kmalloc sz page) (.kmalloc sz page) := by
  obtain ⟨hn,hle⟩ := npagesFor_spec hlo hhi
  have hwant : pagesWanted sz = npagesFor sz := if_pos hlo
  have hok : Kheap.kmalloc s.heap sz page =
      .ok (page, s.heap, [.alloc (npagesFor sz) page]) := if_pos hlo
  rw [hwant] at hg
  unfold Client.kmalloc
  rw [hok]
  rcases grants_spec hn hg with rfl | ⟨hrun,hap⟩
  · exact ⟨⟨hi.running,hi.rep,hi.tracks,hi.busy⟩,fun r hr => hr⟩
  · have hne : page ≠ 0 := Nat.ne_of_gt hrun.pos
    simp only [List.foldl_cons,List.foldl_nil,Kpages.apply,if_neg hne]
    exact ⟨⟨hi.running,hi.rep,hi.tracks.allocRun hlo hle hrun hap,hi.busy⟩,
      fun r hr => List.mem_cons_of_mem _ hr⟩

theorem Intact.served {t : Nat} {res : Nat × Heap × List Kpages} (hi : Intact s ps)
    (hlo : sz < largestSubpageSize) (hpage : page = 0 ∨ RunOk (page, 1) ∧
      ∀ r ∈ s.owned, Apart (page, 1) r) (hs : Served s.heap ps page t res) (ht : t < nsizes)
    (hle : sz ≤ sizeOf t) :
    ∃ ps', Intact { s with heap := res.2.1, owned := res.2.2.foldl Kpages.apply s.owned,
                           live := if res.1 = 0 then s.live else (res.1, sz) :: s.live } ps' ∧
      ∀ r ∈ s.owned, r ∈ res.2.2.foldl Kpages.apply s.owned := by
  cases hs with
  | refused hr hm hk =>
    rcases hk with rfl | rfl
    · exact ⟨ps,⟨hi.running,hr,hi.tracks,hi.busy⟩,fun r hr => hr⟩
    · exact ⟨ps,⟨hi.running,hr,hi.tracks,hi.busy⟩,fun r hr => hr⟩
  | @reused h' xs ys p a rest hps htype hfree hr hm =>
    subst hps
    have hp := hi.rep.page p (by simp)
    have hblk : p.IsBlock a := hp.block a (hfree ▸ List.mem_cons_self)
    have hnd := hp.nodup
    rw [hfree,List.nodup_cons] at hnd
    have hne : a ≠ 0 := Nat.ne_of_gt (Nat.lt_of_lt_of_le hp.pos hblk.1)
    have hsize : sz ≤ p.size := by
      unfold Page.size
      rw [htype]
      exact hle
    have htr := (hi.tracks.perm List.perm_middle.symm).take hfree hblk hnd.1 hlo hsize
    refine ⟨xs ++ { p with free := rest } :: ys,⟨hi.running,hr,?_,?_⟩,fun r hr => hr⟩
    · simp only [List.foldl_nil,if_neg hne]
      exact htr.perm List.perm_middle
    · exact busy_middle hi.busy ⟨a,hblk,hnd.1⟩
  | @opened h' r a rest hg hfree hr hm =>
    obtain ⟨hrun,hap⟩ := hpage.resolve_left (Nat.ne_of_gt hg.pos)
    have hblk : (Page.fresh r page t).IsBlock a := (fresh_all ht).mp (hfree ▸ List.mem_cons_self)
    have hnd : (a :: rest).Nodup :=
      hfree ▸ nodup_blocksDown (Nat.lt_of_lt_of_le (by decide) (sizeOf_cases ht).1)
    rw [List.nodup_cons] at hnd
    have hne : a ≠ 0 := Nat.ne_of_gt (Nat.lt_of_lt_of_le hg.pos hblk.1)
    have hopen : Tracks (Page.fresh r page t :: ps) s.live ((page, 1) :: s.owned) :=
      hi.tracks.openPage ht hrun hap
    have htr := hopen.take hfree hblk hnd.1 hlo hle
    refine ⟨{ Page.fresh r page t with free := rest } :: ps,⟨hi.running,hr,?_,?_⟩,?_⟩
    · simp only [List.foldl_cons,List.foldl_nil,Kpages.apply,if_neg hne,
        if_neg (Nat.ne_of_gt hg.pos)]
      exact htr
    · exact List.forall_mem_cons.mpr ⟨⟨a,hblk,hnd.1⟩,hi.busy⟩
    · simp only [List.foldl_cons,List.foldl_nil,Kpages.apply,if_neg (Nat.ne_of_gt hg.pos)]
      exact fun r hr => List.mem_cons_of_mem _ hr

theorem Intact.kmalloc (hi : Intact s ps) (hsz : sz ≤ 2 ^ 32 - 4096)
    (hg : s.grants (pagesWanted sz) page = true) :
    ∃ ps', Intact (s.kmalloc sz page) ps' ∧
      GivenBack s (s.kmalloc sz page) (.kmalloc sz page) := by
  rcases Nat.lt_or_ge sz largestSubpageSize with hlo | hlo
  · have hwant : pagesWanted sz = 1 := if_neg (Nat.not_le.mpr hlo)
    rw [hwant] at hg
    have hpage := grants_spec Nat.one_pos hg
    obtain ⟨t,res,hok,hserved,ht,hle⟩ := subpageKmalloc_spec hi.rep hlo
      (hpage.imp_right fun ⟨hrun,hap⟩ => hi.tracks.granted hrun hap)
    have hkm : Kheap.kmalloc s.heap sz page = .ok res :=
      (if_neg (Nat.not_le.mpr hlo)).trans hok
    obtain ⟨ps',hi',hkept⟩ := hi.served hlo hpage hserved ht hle
    have hclient : s.kmalloc sz page =
        { s with heap := res.2.1, owned := res.2.2.foldl Kpages.apply s.owned,
                 live := if res.1 = 0 then s.live else (res.1, sz) :: s.live } := by
      unfold Client.kmalloc
      rw [hkm]
    rw [hclient]
    exact ⟨ps',hi',hkept⟩
  · exact ⟨ps,hi.kmalloc_big hlo hsz hg⟩

end

section Kfree
variable {s : Client} {p : Page} {ps xs ys : List Page} {a sz : Nat}

theorem holds_iff_inRun : p.Holds a ↔ InRun (p.addr, 1) a := by
  unfold Page.Holds InRun
  rw [Nat.one_mul]

theorem Tracks.not_holds {live owned : List (Nat × Nat)} (ht : Tracks ps live owned)
    (hmem : (a, sz) ∈ live) (hsz : largestSubpageSize ≤ sz) (hp : p ∈ ps) : ¬ p.Holds a := by
  intro hholds
  obtain ⟨hown,-,hne⟩ := ht.big _ hmem hsz
  have heq := inRun_unique ht hown (ht.pages p hp) (ht.ok _ hown).inRun
    (holds_iff_inRun.mp hholds)
  exact hne p hp (Prod.mk.inj heq).1.symm

theorem Tracks.block_of_inRun {live owned : List (Nat × Nat)} (ht : Tracks ps live owned)
    (hp : p ∈ ps) {e : Nat × Nat} (he : e ∈ live) (hin : InRun (p.addr, 1) e.1) :
    p.IsBlock e.1 := by
  rcases Nat.lt_or_ge e.2 largestSubpageSize with hsz | hsz
  · obtain ⟨q,hq,hblk,-⟩ := ht.small e he hsz
    rw [ht.page_unique hp hq hin hblk.inRun]
    exact hblk
  · exact absurd (holds_iff_inRun.mpr hin) (ht.not_holds he hsz hp)

theorem not_mem_filter {owned : List (Nat × Nat)} {b : Nat} {r : Nat × Nat} (hr : r ∈ owned) :
    r ∉ owned.filter (·.1 ≠ b) ↔ r.1 = b := by
  simp [List.mem_filter,hr]

theorem Intact.ptr_pos (hi : Intact s ps) (hmem : (a, sz) ∈ s.live) : a ≠ 0 := by
  obtain ⟨r,hr,hin,-⟩ := hi.tracks.located hmem
  have := (hi.tracks.ok r hr).pos
  have := hin.1
  omega

theorem Intact.kfree_run (hi : Intact s ps) (hmem : (a, sz) ∈ s.live)
    (hsz : largestSubpageSize ≤ sz) : Kheap.kfree s.heap a = .ok (s.heap, [.free a]) := by
  obtain ⟨hown,-,-⟩ := hi.tracks.big _ hmem hsz
  unfold Kheap.kfree
  rw [if_neg (hi.ptr_pos hmem),
    subpageKfree_none hi.rep fun p hp => hi.tracks.not_holds hmem hsz hp]
  simp only [bind,Except.bind]
  rw [assert_of (decide_eq_true (hi.tracks.ok _ hown).aligned)]

theorem Intact.kfree_big (hi : Intact s ps) (hmem : (a, sz) ∈ s.live)
    (hsz : largestSubpageSize ≤ sz) :
    Intact (s.kfree a) ps ∧ GivenBack s (s.kfree a) (.kfree a) := by
  obtain ⟨hown,-,-⟩ := hi.tracks.big _ hmem hsz
  have hrun := hi.tracks.ok _ hown
  unfold Client.kfree GivenBack
  rw [hi.kfree_run hmem hsz]
  simp only [List.foldl_cons,List.foldl_nil,Kpages.apply]
  refine ⟨⟨hi.running,hi.rep,hi.tracks.freeRun hmem hsz,hi.busy⟩,fun r hr => ?_⟩
  rw [not_mem_filter hr]
  constructor
  · rintro rfl
    have heq := inRun_unique hi.tracks hown hr hrun.inRun (hi.tracks.ok r hr).inRun
    refine ⟨(hi.tracks.ok r hr).inRun,fun e he hin => ?_⟩
    rw [← heq] at hin
    exact (congrArg Prod.fst (hi.tracks.big_unique hmem he hsz hin)).symm
  · rintro ⟨hin,-⟩
    rw [inRun_unique hi.tracks hr hown hin hrun.inRun]

theorem kfree_of_subpage {h h' : Heap} {ks : List Kpages} (ha : a ≠ 0)
    (hok : subpageKfree h a = .ok (some (h', ks))) : Kheap.kfree h a = .ok (h', ks) := by
  unfold Kheap.kfree
  rw [if_neg ha,hok]
  rfl

theorem Intact.kfree_small (hi : Intact s (xs ++ p :: ys)) (hmem : (a, sz) ∈ s.live)
    (hsz : sz < largestSubpageSize) (hblk : p.IsBlock a) :
    ∃ ps', Intact (s.kfree a) ps' ∧ GivenBack s (s.kfree a) (.kfree a) := by
  have hp : p ∈ xs ++ p :: ys := by simp
  have hpok := hi.rep.page p hp
  have hnot : a ∉ p.free := fun hin => (hi.tracks.free p hp a hblk).mp hin _ hmem rfl
  have hnd : (a :: p.free).Nodup := List.nodup_cons.mpr ⟨hnot,hpok.nodup⟩
  have hall : ∀ b ∈ a :: p.free, p.IsBlock b :=
    List.forall_mem_cons.mpr ⟨hblk,hpok.block⟩
  have hrun : ∀ r ∈ s.owned, InRun r a → r = (p.addr, 1) := fun r hr hin =>
    inRun_unique hi.tracks hr (hi.tracks.pages p hp) hin hblk.inRun
  have htr := (hi.tracks.perm List.perm_middle.symm).release hblk hmem hsz
  unfold Client.kfree GivenBack
  rcases subpageKfree_spec hi.rep hblk hnot with ⟨hfull,h',hok,hr'⟩ | ⟨hpart,h',hok,hr'⟩
  · rw [kfree_of_subpage (hi.ptr_pos hmem) hok]
    simp only [List.foldl_cons,List.foldl_nil,Kpages.apply]
    have hevery (b : Nat) (hb : p.IsBlock b) : b ∈ a :: p.free :=
      Page.all_free hpok.type hnd hall hfull hb
    refine ⟨xs ++ ys,⟨hi.running,hr',htr.closePage hevery,fun q hq =>
      hi.busy q (hi.rep.others hq).1⟩,fun r hr => ?_⟩
    rw [not_mem_filter hr]
    constructor
    · intro haddr
      have heq : r = (p.addr, 1) := by
        refine inRun_unique hi.tracks hr (hi.tracks.pages p hp) (hi.tracks.ok r hr).inRun ?_
        rw [haddr]
        exact (hi.tracks.ok _ (hi.tracks.pages p hp)).inRun
      refine ⟨heq ▸ hblk.inRun,fun e he hin => ?_⟩
      have hbe := hi.tracks.block_of_inRun hp he (heq ▸ hin)
      rcases List.mem_cons.mp (hevery _ hbe) with hea | hfree
      · exact hea
      · exact absurd rfl ((hi.tracks.free p hp _ hbe).mp hfree e he)
    · rintro ⟨hin,-⟩
      rw [hrun r hr hin]
  · rw [kfree_of_subpage (hi.ptr_pos hmem) hok]
    simp only [List.foldl_nil]
    obtain ⟨b,hb,hbnot⟩ := Page.exists_used hpok.type hnd hall hpart
    refine ⟨_,⟨hi.running,hr',htr.perm List.perm_middle,busy_middle hi.busy ⟨b,hb,hbnot⟩⟩,
      fun r hr => ⟨fun hnr => absurd hr hnr,?_⟩⟩
    rintro ⟨hin,honly⟩
    rw [List.mem_cons,not_or] at hbnot
    have hused := mt (hi.tracks.free p hp b hb).mpr hbnot.2
    push Not at hused
    obtain ⟨e,he,rfl⟩ := hused
    exact absurd (honly e he (hrun r hr hin ▸ hb.inRun)) hbnot.1

theorem Intact.kfree (hi : Intact s ps) (hmem : (a, sz) ∈ s.live) :
    ∃ ps', Intact (s.kfree a) ps' ∧ GivenBack s (s.kfree a) (.kfree a) := by
  rcases Nat.lt_or_ge sz largestSubpageSize with hlo | hlo
  · obtain ⟨p,hp,hblk,-⟩ := hi.tracks.small _ hmem hlo
    obtain ⟨xs,ys,rfl⟩ := List.append_of_mem hp
    exact hi.kfree_small hmem hlo hblk
  · exact ⟨ps,hi.kfree_big hmem hlo⟩

end Kfree

section
variable {s : Client} {h : Heap} {p : Page} {ps : List Page} {x : Nat} {v : UInt8}

theorem PageOk.write (hp : PageOk h p) (hx : ∀ a ∈ p.free, x < a ∨ a + 4 ≤ x) :
    PageOk { h with mem := Function.update h.mem x v } p := by
  refine ⟨hp.type,hp.aligned,hp.pos,hp.top,hp.pab,hp.offset,hp.nfree,?_,hp.nodup,
    hp.block⟩
  refine hp.links.congr fun a ha => ?_
  have := hx a ha
  unfold nextPtr
  rw [Bytes.load32_congr fun y _ _ => Function.update_of_ne (by omega) _ _]

theorem Rep.write (hr : Rep h ps) (hx : ∀ p ∈ ps, ∀ a ∈ p.free, x < a ∨ a + 4 ≤ x) :
    Rep { h with mem := Function.update h.mem x v } ps :=
  ⟨hr.refs,hr.nodup,hr.bits,hr.words,hr.all,hr.same,
    fun p hp => (hr.page p hp).write (hx p hp),hr.apart⟩

theorem Intact.off_freelist (hi : Intact s ps) (hw : s.writable x = true) {p : Page}
    (hp : p ∈ ps) {a : Nat} (ha : a ∈ p.free) : x < a ∨ a + 4 ≤ x := by
  have hpok := hi.rep.page p hp
  have hblk := hpok.block a ha
  have hlo := hblk.1
  have hfit := block_fits hpok.type hblk
  have h16 := (sizeOf_cases hpok.type).1
  have hsize : p.size = sizeOf p.type := rfl
  rcases of_decide_eq_true hw with ⟨e,he,hex,hxe⟩ | hout
  · obtain ⟨r,hr,hin,hle⟩ := hi.tracks.located he
    rcases hi.tracks.apart r hr _ (hi.tracks.pages p hp) with rfl | hap
    · have hbe := hi.tracks.block_of_inRun hp he hin
      have hne : e.1 ≠ a := (hi.tracks.free p hp a hblk).mp ha e he
      have hsz : e.2 < largestSubpageSize := not_le.mp fun hbig =>
        hi.tracks.not_holds he hbig hp (holds_iff_inRun.mpr hin)
      obtain ⟨q,hq,hqb,hqs⟩ := hi.tracks.small e he hsz
      have hpq := hi.tracks.page_unique hp hq hin hqb.inRun
      subst hpq
      have := blocks_apart hpok.type hbe hblk hne
      omega
    · unfold Apart at hap
      unfold InRun at hin
      omega
  · have := hout _ (hi.tracks.pages p hp)
    omega

theorem Intact.write (hi : Intact s ps) (hw : s.writable x = true) :
    Intact (s.write x v) ps :=
  ⟨hi.running,hi.rep.write fun _ hp _ ha => hi.off_freelist hw hp ha,hi.tracks,hi.busy⟩

end

theorem Intact.step {s s' : Client} {ps : List Page} {op : HeapOp} (hi : Intact s ps)
    (hstep : s.step op = some s') : ∃ ps', Intact s' ps' ∧ GivenBack s s' op := by
  unfold Client.step at hstep
  rw [if_neg (not_not.mpr hi.running)] at hstep
  cases op with
  | kmalloc sz page =>
    obtain ⟨hguard,⟨⟩⟩ := Option.ite_none_right_eq_some.mp hstep
    exact hi.kmalloc hguard.1 hguard.2
  | kfree p =>
    obtain ⟨hguard,⟨⟩⟩ := Option.ite_none_right_eq_some.mp hstep
    obtain ⟨e,he,rfl⟩ := hguard
    exact hi.kfree he
  | write x v =>
    obtain ⟨hguard,⟨⟩⟩ := Option.ite_none_right_eq_some.mp hstep
    exact ⟨ps,hi.write hguard,fun r hr => hr⟩

theorem intact_boot (mem : Bytes.Mem) : Intact (Client.boot mem) [] := by
  refine ⟨rfl,⟨nofun,List.nodup_nil,fun r _ => ?_,fun _ => Nat.two_pow_pos 32,?_,fun _ _ => ?_,nofun,
    List.nodup_nil⟩,⟨nofun,List.nodup_nil,nofun,nofun,nofun,List.nodup_nil,nofun,nofun,
    nofun,nofun⟩,nofun⟩
  · simp [Client.boot,Heap.empty,Heap.refUsed,Bits.get]
  · exact links_nil.mpr rfl
  · exact links_nil.mpr rfl

theorem intact_along {mem : Bytes.Mem} {ops : List HeapOp} {s : Client}
    (hrun : Run.exec Client.step (Client.boot mem) ops = some s) : ∃ ps, Intact s ps := by
  refine Run.invariant (P := fun _ _ => True) (I := fun s => ∃ ps, Intact s ps) ?_
    ⟨[],intact_boot mem⟩ (Run.along_of_forall fun _ _ => trivial) hrun
  rintro s op s' ⟨ps,hi⟩ - hstep
  obtain ⟨ps',hi',-⟩ := hi.step hstep
  exact ⟨ps',hi'⟩

structure LiveBlocks (ps : List Page) (live owned : List (Nat × Nat)) : Prop where
  roomy : ∀ e ∈ live, (∃ p ∈ ps, p.IsBlock e.1 ∧ e.2 ≤ p.size ∧ e.1 + p.size ≤ p.addr + pageSize) ∨
    ∃ r ∈ owned, r.1 = e.1 ∧ e.2 ≤ r.2 * pageSize
  apart : live.Pairwise fun e f => e.1 ≠ f.1 ∧ (e.1 + e.2 ≤ f.1 ∨ f.1 + f.2 ≤ e.1)

theorem Tracks.liveBlocks {ps : List Page} {live owned : List (Nat × Nat)}
    (ht : Tracks ps live owned) : LiveBlocks ps live owned := by
  refine ⟨fun e he => ?_,(List.pairwise_map.mp ht.nodup).and ht.live_apart⟩
  rcases Nat.lt_or_ge e.2 largestSubpageSize with hsz | hsz
  · obtain ⟨p,hp,hblk,hle⟩ := ht.small e he hsz
    exact .inl ⟨p,hp,hblk,hle,block_fits (ht.type p hp) hblk⟩
  · obtain ⟨hown,hle,-⟩ := ht.big e he hsz
    exact .inr ⟨_,hown,rfl,hle⟩

theorem Intact.path {s : Client} {ps : List Page} (hi : Intact s ps) {e : Nat × Nat}
    (he : e ∈ s.live) : subpageKfree s.heap e.1 = .ok none ↔ largestSubpageSize ≤ e.2 := by
  constructor
  · intro hnone
    by_contra hlt
    obtain ⟨p,hp,hblk,-⟩ := hi.tracks.small e he (not_le.mp hlt)
    obtain ⟨xs,ys,rfl⟩ := List.append_of_mem hp
    have hnot : e.1 ∉ p.free := fun hin => (hi.tracks.free p hp _ hblk).mp hin e he rfl
    rcases subpageKfree_spec hi.rep hblk hnot with ⟨-,h',hok,-⟩ | ⟨-,h',hok,-⟩
    · rw [hok] at hnone
      cases hnone
    · rw [hok] at hnone
      cases hnone
  · intro hsz
    exact subpageKfree_none hi.rep fun p hp => hi.tracks.not_holds he hsz hp

theorem kernel_heap_along {mem : Bytes.Mem} {ops : List HeapOp} {s : Client}
    (hrun : Run.exec Client.step (Client.boot mem) ops = some s) :
    s.stopped = none ∧
      (∃ ps, Rep s.heap ps ∧ LiveBlocks ps s.live s.owned ∧
        (∀ p ∈ ps, ∀ a, p.IsBlock a → (a ∈ p.free ↔ ∀ e ∈ s.live, e.1 ≠ a)) ∧
        (∀ p ∈ ps, ∃ e ∈ s.live, p.IsBlock e.1) ∧
        ∀ r, r ∈ s.owned ↔ (∃ p ∈ ps, r = (p.addr, 1)) ∨
          ∃ e ∈ s.live, largestSubpageSize ≤ e.2 ∧ r = (e.1, npagesFor e.2)) ∧
      (∀ e ∈ s.live, subpageKfree s.heap e.1 = .ok none ↔ largestSubpageSize ≤ e.2) ∧
      ∀ op s', s.step op = some s' → GivenBack s s' op := by
  obtain ⟨ps,hi⟩ := intact_along hrun
  have ht := hi.tracks
  refine ⟨hi.running,⟨ps,hi.rep,ht.liveBlocks,ht.free,fun p hp => ?_,fun r =>
    ⟨ht.runs r,?_⟩⟩,fun e he => hi.path he,fun op s' hstep => ?_⟩
  · obtain ⟨a,hblk,hnot⟩ := hi.busy p hp
    have hused := mt (ht.free p hp a hblk).mpr hnot
    push Not at hused
    obtain ⟨e,he,rfl⟩ := hused
    exact ⟨e,he,hblk⟩
  · rintro (⟨p,hp,rfl⟩ | ⟨e,he,hsz,rfl⟩)
    · exact ht.pages p hp
    · exact (ht.big e he hsz).1
  · obtain ⟨-,-,hback⟩ := hi.step hstep
    exact hback

def fourBlocks : List HeapOp :=
  [.kmalloc 10 0x80001000, .kmalloc 3000 0x80002000, .kmalloc 16 0, .kmalloc 100 0x80003000,
    .write 0x80001ff0 7, .kfree 0x80003f80, .kfree 0x80001ff0]

theorem kernel_heap_four_blocks :
    ∃ s, Run.exec Client.step (Client.boot fun _ => 0) fourBlocks = some s ∧
      s.live = [(0x80001fe0, 16), (0x80002000, 3000)] ∧
      s.owned = [(0x80002000, 1), (0x80001000, 1)] ∧ s.stopped = none := by
  have hview : ((Run.exec Client.step (Client.boot fun _ => 0) fourBlocks).map
      fun s => (s.live, s.owned)) =
      some ([(0x80001fe0, 16),(0x80002000, 3000)], [(0x80002000, 1),(0x80001000, 1)]) := by
    decide +kernel
  obtain ⟨s,hs,heq⟩ := Option.map_eq_some_iff.mp hview
  simp only [Prod.mk.injEq] at heq
  exact ⟨s,hs,heq.1,heq.2,(kernel_heap_along hs).1⟩

end OS161.Kheap
