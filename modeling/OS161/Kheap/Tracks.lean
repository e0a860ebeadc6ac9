import OS161.Kheap.Free

namespace OS161.Kheap

def InRun (r : Nat × Nat) (x : Nat) : Prop := r.1 ≤ x ∧ x < r.1 + r.2 * pageSize

def Apart (r r' : Nat × Nat) : Prop :=
  r.1 + r.2 * pageSize ≤ r'.1 ∨ r'.1 + r'.2 * pageSize ≤ r.1

structure RunOk (r : Nat × Nat) : Prop where
  aligned : r.1 % pageSize = 0
  pos : 0 < r.1
  top : r.1 + r.2 * pageSize < 2 ^ 32
  some : 0 < r.2

structure Tracks (ps : List Page) (live owned : List (Nat × Nat)) : Prop where
  type : ∀ p ∈ ps, p.type < nsizes
  addrs : (ps.map Page.addr).Nodup
  free : ∀ p ∈ ps, ∀ a, p.IsBlock a → (a ∈ p.free ↔ ∀ e ∈ live, e.1 ≠ a)
  small : ∀ e ∈ live, e.2 < largestSubpageSize → ∃ p ∈ ps, p.IsBlock e.1 ∧ e.2 ≤ p.size
  big : ∀ e ∈ live, largestSubpageSize ≤ e.2 → (e.1, npagesFor e.2) ∈ owned ∧
    e.2 ≤ npagesFor e.2 * pageSize ∧ ∀ p ∈ ps, p.addr ≠ e.1
  nodup : (live.map Prod.fst).Nodup
  pages : ∀ p ∈ ps, (p.addr, 1) ∈ owned
  runs : ∀ r ∈ owned, (∃ p ∈ ps, r = (p.addr, 1)) ∨
    ∃ e ∈ live, largestSubpageSize ≤ e.2 ∧ r = (e.1, npagesFor e.2)
  ok : ∀ r ∈ owned, RunOk r
  apart : ∀ r ∈ owned, ∀ r' ∈ owned, r = r' ∨ Apart r r'

def Busy (ps : List Page) : Prop := ∀ p ∈ ps, ∃ a, p.IsBlock a ∧ a ∉ p.free

section Facts
variable {p q : Page} {ps ps' qs : List Page} {live owned : List (Nat × Nat)} {a x : Nat}

theorem Page.IsBlock.inRun (ha : p.IsBlock a) : InRun (p.addr, 1) a :=
  ⟨ha.1,by simpa using ha.2.1⟩

theorem RunOk.inRun {r : Nat × Nat} (hr : RunOk r) : InRun r r.1 := by
  have := hr.some
  unfold InRun pageSize
  omega

section
variable (ht : Tracks ps live owned)
include ht

theorem inRun_unique {r r' : Nat × Nat} (hr : r ∈ owned) (hr' : r' ∈ owned) (hx : InRun r x)
    (hx' : InRun r' x) : r = r' := by
  rcases ht.apart r hr r' hr' with heq | hap
  · exact heq
  · unfold Apart at hap
    unfold InRun at hx hx'
    omega

theorem Tracks.inj (hp : p ∈ ps) (hq : q ∈ ps) (haddr : p.addr = q.addr) : p = q :=
  List.inj_on_of_nodup_map ht.addrs hp hq haddr

theorem Tracks.page_unique (hp : p ∈ ps) (hq : q ∈ ps) (hpx : InRun (p.addr, 1) x)
    (hqx : InRun (q.addr, 1) x) : p = q :=
  ht.inj hp hq
    (Prod.mk.inj (inRun_unique ht (ht.pages p hp) (ht.pages q hq) hpx hqx)).1

theorem Tracks.perm (hperm : ps'.Perm ps) : Tracks ps' live owned := by
  have hin (q : Page) (hq : q ∈ ps') : q ∈ ps := hperm.mem_iff.mp hq
  refine ⟨fun p hp => ht.type p (hin p hp),(hperm.map _).nodup_iff.mpr ht.addrs,
    fun p hp => ht.free p (hin p hp),fun e he hsz => ?_,fun e he hsz => ?_,ht.nodup,
    fun p hp => ht.pages p (hin p hp),fun r hr => ?_,ht.ok,ht.apart⟩
  · obtain ⟨p,hp,hrest⟩ := ht.small e he hsz
    exact ⟨p,hperm.mem_iff.mpr hp,hrest⟩
  · obtain ⟨hown,hle,hne⟩ := ht.big e he hsz
    exact ⟨hown,hle,fun p hp => hne p (hin p hp)⟩
  · exact (ht.runs r hr).imp_left fun ⟨p,hp,heq⟩ => ⟨p,hperm.mem_iff.mpr hp,heq⟩

theorem Tracks.located {e : Nat × Nat} (he : e ∈ live) :
    ∃ r ∈ owned, InRun r e.1 ∧ e.1 + e.2 ≤ r.1 + r.2 * pageSize := by
  rcases Nat.lt_or_ge e.2 largestSubpageSize with hsz | hsz
  · obtain ⟨p,hp,hblk,hle⟩ := ht.small e he hsz
    have hfit := block_fits (ht.type p hp) hblk
    exact ⟨_,ht.pages p hp,hblk.inRun,by dsimp only; omega⟩
  · obtain ⟨hown,hle,-⟩ := ht.big e he hsz
    exact ⟨_,hown,(ht.ok _ hown).inRun,by dsimp only; omega⟩

theorem Tracks.big_unique {e f : Nat × Nat} (he : e ∈ live) (hf : f ∈ live)
    (hsz : largestSubpageSize ≤ e.2) (hx : InRun (e.1, npagesFor e.2) f.1) : e = f := by
  obtain ⟨hown,-,hne⟩ := ht.big e he hsz
  have hfst : e.1 = f.1 := by
    rcases Nat.lt_or_ge f.2 largestSubpageSize with hfsz | hfsz
    · obtain ⟨p,hp,hblk,-⟩ := ht.small f hf hfsz
      have heq := inRun_unique ht hown (ht.pages p hp) hx hblk.inRun
      exact absurd (Prod.mk.inj heq).1.symm (hne p hp)
    · obtain ⟨hfown,-,-⟩ := ht.big f hf hfsz
      exact (Prod.mk.inj (inRun_unique ht hown hfown hx (ht.ok _ hfown).inRun)).1
  exact List.inj_on_of_nodup_map ht.nodup he hf hfst

theorem Tracks.live_apart : live.Pairwise fun e f => e.1 + e.2 ≤ f.1 ∨ f.1 + f.2 ≤ e.1 := by
  have hnd : live.Pairwise fun e f => e.1 ≠ f.1 := List.pairwise_map.mp ht.nodup
  refine hnd.imp_of_mem fun {e f} he hf hne => ?_
  obtain ⟨r,hr,hre,hle⟩ := ht.located he
  obtain ⟨r',hr',hrf,hlf⟩ := ht.located hf
  rcases ht.apart r hr r' hr' with rfl | hap
  · rcases Nat.lt_or_ge e.2 largestSubpageSize with hsz | hsz
    · rcases Nat.lt_or_ge f.2 largestSubpageSize with hfsz | hfsz
      · obtain ⟨p,hp,hblk,hpe⟩ := ht.small e he hsz
        obtain ⟨q,hq,hqblk,hqf⟩ := ht.small f hf hfsz
        have h1 := inRun_unique ht hr (ht.pages p hp) hre hblk.inRun
        have h2 := inRun_unique ht hr (ht.pages q hq) hrf hqblk.inRun
        obtain rfl := ht.inj hp hq (Prod.mk.inj (h1.symm.trans h2)).1
        have := blocks_apart (ht.type p hp) hblk hqblk hne
        omega
      · obtain ⟨hown,-,-⟩ := ht.big f hf hfsz
        have h1 := inRun_unique ht hr hown hrf (ht.ok _ hown).inRun
        exact absurd (congrArg Prod.fst (ht.big_unique hf he hfsz (h1 ▸ hre))).symm hne
    · obtain ⟨hown,-,-⟩ := ht.big e he hsz
      have h1 := inRun_unique ht hr hown hre (ht.ok _ hown).inRun
      exact absurd (congrArg Prod.fst (ht.big_unique he hf hsz (h1 ▸ hrf))) hne
  · unfold Apart at hap
    unfold InRun at hre hrf
    omega

end

end Facts

section Steps
variable {p : Page} {qs ps : List Page} {live owned : List (Nat × Nat)} {a sz : Nat}
  {rest : List Nat}

theorem Tracks.off_page (ht : Tracks (p :: qs) live owned) (ha : p.IsBlock a) {q : Page}
    (hq : q ∈ qs) {b : Nat} (hb : q.IsBlock b) : b ≠ a := by
  rintro rfl
  have heq := ht.page_unique List.mem_cons_self (List.mem_cons_of_mem _ hq) ha.inRun hb.inRun
  have hnd := ht.addrs
  rw [List.map_cons,List.nodup_cons] at hnd
  exact hnd.1 (List.mem_map.mpr ⟨q,hq,by rw [heq]⟩)

theorem Tracks.setFree {free : List Nat} {live' : List (Nat × Nat)}
    (ht : Tracks (p :: qs) live owned)
    (hfree : ∀ b, p.IsBlock b → (b ∈ free ↔ ∀ e ∈ live', e.1 ≠ b))
    (hother : ∀ q ∈ qs, ∀ b, q.IsBlock b → ((∀ e ∈ live', e.1 ≠ b) ↔ ∀ e ∈ live, e.1 ≠ b))
    (hgain : ∀ e ∈ live', e ∈ live ∨
      e.2 < largestSubpageSize ∧ p.IsBlock e.1 ∧ e.2 ≤ p.size)
    (hbig : ∀ e ∈ live, largestSubpageSize ≤ e.2 → e ∈ live')
    (hnd : (live'.map Prod.fst).Nodup) : Tracks ({ p with free := free } :: qs) live' owned := by
  have hp : p ∈ p :: qs := List.mem_cons_self
  have hin (q : Page) (hq : q ∈ qs) : q ∈ p :: qs := List.mem_cons_of_mem _ hq
  have hnew (P : Page → Prop) (hP : P p → P { p with free := free })
      (hex : ∃ q ∈ p :: qs, P q) : ∃ q ∈ { p with free := free } :: qs, P q := by
    obtain ⟨q,hq,hPq⟩ := hex
    rcases List.mem_cons.mp hq with rfl | hq
    · exact ⟨_,List.mem_cons_self,hP hPq⟩
    · exact ⟨q,List.mem_cons_of_mem _ hq,hPq⟩
  refine ⟨List.forall_mem_cons.mpr ⟨ht.type p hp,fun q hq => ht.type q (hin q hq)⟩,ht.addrs,
    List.forall_mem_cons.mpr ⟨hfree,fun q hq b hb => ?_⟩,fun e he hsz => ?_,fun e he hsz => ?_,
    hnd,List.forall_mem_cons.mpr ⟨ht.pages p hp,fun q hq => ht.pages q (hin q hq)⟩,
    fun r hr => ?_,ht.ok,ht.apart⟩
  · rw [hother q hq b hb]
    exact ht.free q (hin q hq) b hb
  · rcases hgain e he with he | ⟨-,hblk,hle⟩
    · exact hnew (fun q => q.IsBlock e.1 ∧ e.2 ≤ q.size) id (ht.small e he hsz)
    · exact ⟨_,List.mem_cons_self,hblk,hle⟩
  · rcases hgain e he with he | ⟨hlt,-⟩
    · obtain ⟨hown,hle,hne⟩ := ht.big e he hsz
      exact ⟨hown,hle,List.forall_mem_cons.mpr ⟨hne p hp,fun q hq => hne q (hin q hq)⟩⟩
    · omega
  · rcases ht.runs r hr with hpage | ⟨e,he,hsz,heq⟩
    · exact .inl (hnew (fun q => r = (q.addr, 1)) id hpage)
    · exact .inr ⟨e,hbig e he hsz,hsz,heq⟩

theorem Tracks.take (ht : Tracks (p :: qs) live owned) (hfree : p.free = a :: rest)
    (ha : p.IsBlock a) (hnot : a ∉ rest) (hsz : sz < largestSubpageSize) (hle : sz ≤ p.size) :
    Tracks ({ p with free := rest } :: qs) ((a, sz) :: live) owned := by
  have hlive : ∀ e ∈ live, e.1 ≠ a :=
    (ht.free p List.mem_cons_self a ha).mp (hfree ▸ List.mem_cons_self)
  refine ht.setFree (fun b hb => ?_) (fun q hq b hb => ?_) (fun e he => ?_)
    (fun e he _ => List.mem_cons_of_mem _ he) ?_
  · rw [List.forall_mem_cons,← ht.free p List.mem_cons_self b hb,hfree,List.mem_cons]
    constructor
    · intro hb
      exact ⟨fun heq : a = b => hnot (heq ▸ hb),.inr hb⟩
    · rintro ⟨hne,heq | hin⟩
      · exact absurd heq.symm hne
      · exact hin
  · rw [List.forall_mem_cons]
    exact and_iff_right (ht.off_page ha hq hb).symm
  · rcases List.mem_cons.mp he with rfl | he
    · exact .inr ⟨hsz,ha,hle⟩
    · exact .inl he
  · rw [List.map_cons,List.nodup_cons]
    refine ⟨fun hin => ?_,ht.nodup⟩
    obtain ⟨e,he,heq⟩ := List.mem_map.mp hin
    exact hlive e he heq

theorem forall_filter_ne {b : Nat} : (∀ e ∈ live.filter (·.1 ≠ a), e.1 ≠ b) ↔
    b = a ∨ ∀ e ∈ live, e.1 ≠ b := by
  constructor
  · intro hall
    by_cases hba : b = a
    · exact .inl hba
    · refine .inr fun e he heq => hall e (List.mem_filter.mpr ⟨he,?_⟩) heq
      simpa [heq] using hba
  · rintro (rfl | hall) e he
    · simpa using (List.mem_filter.mp he).2
    · exact hall e (List.mem_filter.mp he).1

theorem Tracks.release (ht : Tracks (p :: qs) live owned) (ha : p.IsBlock a)
    (hmem : (a, sz) ∈ live) (hsz : sz < largestSubpageSize) :
    Tracks ({ p with free := a :: p.free } :: qs) (live.filter (·.1 ≠ a)) owned := by
  refine ht.setFree (fun b hb => ?_) (fun q hq b hb => ?_)
    (fun e he => .inl (List.mem_filter.mp he).1) (fun e he hbig => List.mem_filter.mpr ⟨he,?_⟩)
    (ht.nodup.sublist (List.filter_sublist.map _))
  · rw [forall_filter_ne,List.mem_cons,ht.free p List.mem_cons_self b hb]
  · rw [forall_filter_ne]
    exact or_iff_right (ht.off_page ha hq hb)
  · rw [decide_eq_true_iff]
    intro heq
    have := List.inj_on_of_nodup_map ht.nodup he hmem heq
    subst this
    omega

theorem Tracks.ne_of_apart (ht : Tracks ps live owned) {r : Nat × Nat}
    (hap : ∀ r' ∈ owned, Apart r r') {x : Nat} (hx : InRun r x) {e : Nat × Nat} (he : e ∈ live) :
    e.1 ≠ x := by
  rintro rfl
  obtain ⟨r',hr',hin,-⟩ := ht.located he
  have := hap r' hr'
  unfold Apart at this
  unfold InRun at hin hx
  omega

theorem apart_cons {r : Nat × Nat} (ht : Tracks ps live owned) (hap : ∀ r' ∈ owned, Apart r r') :
    ∀ r₁ ∈ r :: owned, ∀ r₂ ∈ r :: owned, r₁ = r₂ ∨ Apart r₁ r₂ := by
  refine List.forall_mem_cons.mpr ⟨List.forall_mem_cons.mpr ⟨.inl rfl,fun r' hr' =>
    .inr (hap r' hr')⟩,fun r₁ h₁ => List.forall_mem_cons.mpr ⟨.inr (hap r₁ h₁).symm,?_⟩⟩
  exact ht.apart r₁ h₁

theorem Tracks.openPage {ref page t : Nat} (ht : Tracks ps live owned) (htype : t < nsizes)
    (hrun : RunOk (page, 1)) (hap : ∀ r ∈ owned, Apart (page, 1) r) :
    Tracks (Page.fresh ref page t :: ps) live ((page, 1) :: owned) := by
  have hself := hrun.inRun
  refine ⟨List.forall_mem_cons.mpr ⟨htype,ht.type⟩,?_,
    List.forall_mem_cons.mpr ⟨fun a ha => ?_,ht.free⟩,fun e he hsz => ?_,fun e he hsz => ?_,
    ht.nodup,List.forall_mem_cons.mpr ⟨List.mem_cons_self,fun p hp =>
      List.mem_cons_of_mem _ (ht.pages p hp)⟩,?_,List.forall_mem_cons.mpr ⟨hrun,ht.ok⟩,
    apart_cons ht hap⟩
  · rw [List.map_cons,List.nodup_cons]
    refine ⟨fun hin => ?_,ht.addrs⟩
    obtain ⟨p,hp,heq⟩ := List.mem_map.mp hin
    have := hap _ (ht.pages p hp)
    have haddr : p.addr = page := heq
    unfold Apart pageSize at this
    omega
  · exact iff_of_true ((fresh_all htype).mpr ha) fun e he => ht.ne_of_apart hap ha.inRun he
  · obtain ⟨p,hp,hrest⟩ := ht.small e he hsz
    exact ⟨p,List.mem_cons_of_mem _ hp,hrest⟩
  · obtain ⟨hown,hle,hne⟩ := ht.big e he hsz
    exact ⟨List.mem_cons_of_mem _ hown,hle,List.forall_mem_cons.mpr
      ⟨(ht.ne_of_apart hap hself he).symm,hne⟩⟩
  · refine List.forall_mem_cons.mpr ⟨.inl ⟨_,List.mem_cons_self,rfl⟩,fun r hr => ?_⟩
    exact (ht.runs r hr).imp_left fun ⟨p,hp,heq⟩ => ⟨p,List.mem_cons_of_mem _ hp,heq⟩

theorem Tracks.closePage (ht : Tracks (p :: qs) live owned)
    (hall : ∀ a, p.IsBlock a → a ∈ p.free) :
    Tracks qs live (owned.filter (·.1 ≠ p.addr)) := by
  have hp : p ∈ p :: qs := List.mem_cons_self
  have hin (q : Page) (hq : q ∈ qs) : q ∈ p :: qs := List.mem_cons_of_mem _ hq
  have haddrs := ht.addrs
  rw [List.map_cons,List.nodup_cons] at haddrs
  have hkeep {r : Nat × Nat} (hr : r ∈ owned) (hne : r.1 ≠ p.addr) :
      r ∈ owned.filter (·.1 ≠ p.addr) := List.mem_filter.mpr ⟨hr,decide_eq_true hne⟩
  have hsub {r : Nat × Nat} (hr : r ∈ owned.filter (·.1 ≠ p.addr)) : r ∈ owned ∧ r.1 ≠ p.addr :=
    ⟨(List.mem_filter.mp hr).1,of_decide_eq_true (List.mem_filter.mp hr).2⟩
  refine ⟨fun q hq => ht.type q (hin q hq),haddrs.2,fun q hq => ht.free q (hin q hq),
    fun e he hsz => ?_,fun e he hsz => ?_,ht.nodup,fun q hq => hkeep (ht.pages q (hin q hq)) ?_,
    fun r hr => ?_,fun r hr => ht.ok r (hsub hr).1,
    fun r hr r' hr' => ht.apart r (hsub hr).1 r' (hsub hr').1⟩
  · obtain ⟨q,hq,hblk,hle⟩ := ht.small e he hsz
    rcases List.mem_cons.mp hq with rfl | hq
    · exact absurd rfl ((ht.free q hp _ hblk).mp (hall _ hblk) e he)
    · exact ⟨q,hq,hblk,hle⟩
  · obtain ⟨hown,hle,hne⟩ := ht.big e he hsz
    exact ⟨hkeep hown (hne p hp).symm,hle,fun q hq => hne q (hin q hq)⟩
  · exact fun heq => haddrs.1 (List.mem_map.mpr ⟨q,hq,heq⟩)
  · obtain ⟨hr,hne⟩ := hsub hr
    rcases ht.runs r hr with ⟨q,hq,rfl⟩ | hbig
    · rcases List.mem_cons.mp hq with rfl | hq
      · exact absurd rfl hne
      · exact .inl ⟨q,hq,rfl⟩
    · exact .inr hbig

theorem Tracks.allocRun {page : Nat} (ht : Tracks ps live owned) (hsz : largestSubpageSize ≤ sz)
    (hle : sz ≤ npagesFor sz * pageSize) (hrun : RunOk (page, npagesFor sz))
    (hap : ∀ r ∈ owned, Apart (page, npagesFor sz) r) :
    Tracks ps ((page, sz) :: live) ((page, npagesFor sz) :: owned) := by
  have hfar (p : Page) (hp : p ∈ ps) {b : Nat} (hb : InRun (p.addr, 1) b) : page ≠ b := by
    have := hap _ (ht.pages p hp)
    have hself := hrun.inRun
    unfold Apart at this
    unfold InRun at hb hself
    omega
  refine ⟨ht.type,ht.addrs,fun p hp b hb => ?_,?_,?_,?_,fun p hp =>
    List.mem_cons_of_mem _ (ht.pages p hp),?_,List.forall_mem_cons.mpr ⟨hrun,ht.ok⟩,
    apart_cons ht hap⟩
  · rw [List.forall_mem_cons,ht.free p hp b hb]
    exact (and_iff_right (hfar p hp hb.inRun)).symm
  · exact List.forall_mem_cons.mpr ⟨fun hlt => absurd hsz (Nat.not_le.mpr hlt),ht.small⟩
  · refine List.forall_mem_cons.mpr ⟨fun _ => ⟨List.mem_cons_self,hle,fun p hp => ?_⟩,
      fun e he hbig => ?_⟩
    · exact (hfar p hp (ht.ok _ (ht.pages p hp)).inRun).symm
    · obtain ⟨hown,hrest⟩ := ht.big e he hbig
      exact ⟨List.mem_cons_of_mem _ hown,hrest⟩
  · rw [List.map_cons,List.nodup_cons]
    refine ⟨fun hin => ?_,ht.nodup⟩
    obtain ⟨e,he,heq⟩ := List.mem_map.mp hin
    exact ht.ne_of_apart hap hrun.inRun he heq
  · refine List.forall_mem_cons.mpr ⟨.inr ⟨_,List.mem_cons_self,hsz,rfl⟩,fun r hr => ?_⟩
    exact (ht.runs r hr).imp_right fun ⟨e,he,hrest⟩ => ⟨e,List.mem_cons_of_mem _ he,hrest⟩

theorem Tracks.freeRun (ht : Tracks ps live owned) (hmem : (a, sz) ∈ live)
    (hsz : largestSubpageSize ≤ sz) :
    Tracks ps (live.filter (·.1 ≠ a)) (owned.filter (·.1 ≠ a)) := by
  obtain ⟨hown,-,hpages⟩ := ht.big _ hmem hsz
  have hkeep {r : Nat × Nat} (hr : r ∈ owned) (hne : r.1 ≠ a) : r ∈ owned.filter (·.1 ≠ a) :=
    List.mem_filter.mpr ⟨hr,decide_eq_true hne⟩
  have hsub {l : List (Nat × Nat)} {r : Nat × Nat} (hr : r ∈ l.filter (·.1 ≠ a)) :
      r ∈ l ∧ r.1 ≠ a :=
    ⟨(List.mem_filter.mp hr).1,of_decide_eq_true (List.mem_filter.mp hr).2⟩
  refine ⟨ht.type,ht.addrs,fun p hp b hb => ?_,fun e he => ht.small e (hsub he).1,
    fun e he hbig => ?_,ht.nodup.sublist (List.filter_sublist.map _),
    fun p hp => hkeep (ht.pages p hp) (hpages p hp),fun r hr => ?_,
    fun r hr => ht.ok r (hsub hr).1,fun r hr r' hr' => ht.apart r (hsub hr).1 r' (hsub hr').1⟩
  · rw [forall_filter_ne,ht.free p hp b hb]
    refine (or_iff_right fun heq => ?_).symm
    subst heq
    have hrun := inRun_unique ht hown (ht.pages p hp) (ht.ok _ hown).inRun hb.inRun
    exact hpages p hp (Prod.mk.inj hrun).1.symm
  · obtain ⟨hown',hrest⟩ := ht.big e (hsub he).1 hbig
    exact ⟨hkeep hown' (hsub he).2,hrest⟩
  · obtain ⟨hr,hne⟩ := hsub hr
    refine (ht.runs r hr).imp_right ?_
    rintro ⟨e,he,hbig,rfl⟩
    exact ⟨e,List.mem_filter.mpr ⟨he,decide_eq_true hne⟩,hbig,rfl⟩

end Steps

end OS161.Kheap
