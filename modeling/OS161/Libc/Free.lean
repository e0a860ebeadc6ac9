import OS161.Libc.Alloc

namespace OS161.Libc

open Bytes (load32 store32)
open Layout

def merged (b c : Blk) : List Blk :=
  if b.inuse = true ∨ c.inuse = true then [b, c] else [⟨b.units + c.units, false⟩]

section Merge
variable {h : Heap} {xs ys : List Blk} {b c : Blk} {m : Bytes.Mem} {a base n x : Nat}

theorem deadbeefWords_of_outside (hx : x < a ∨ a + 4 * n ≤ x) : deadbeefWords m a n x = m x := by
  induction n generalizing m a with
  | zero => rfl
  | succ n ih =>
    rw [deadbeefWords,ih (by omega)]
    exact Bytes.store32_of_outside (by omega)

theorem mallocDeadbeef_of_outside {size : Nat} (hx : x < a ∨ a + size ≤ x) :
    mallocDeadbeef m a size x = m x :=
  deadbeefWords_of_outside (by omega)

theorem span_merged : span Blk.bytes (merged b c) = b.bytes + c.bytes := by
  unfold merged
  split <;> simp [Blk.bytes]
  omega

theorem units_merged (hb : n ≤ b.units) (hc : n ≤ c.units) : ∀ d ∈ merged b c, n ≤ d.units := by
  unfold merged
  split <;> simp <;> omega

theorem at_merged (e : Nat) (d : Blk) (hd : d.inuse = true) :
    At Blk.bytes base (xs ++ (merged b c ++ ys)) e d ↔
      At Blk.bytes base (xs ++ b :: c :: ys) e d := by
  unfold merged
  split <;> rename_i huse
  · simp
  · simp only [not_or,Bool.not_eq_true] at huse
    have hb : d ≠ b := fun heq => by simp [heq,huse.1] at hd
    have hc : d ≠ c := fun heq => by simp [heq,huse.2] at hd
    have hm : d ≠ ⟨b.units + c.units,false⟩ := fun heq => by simp [heq] at hd
    simp only [at_append,at_cons,span_cons,span_nil,at_nil,hb,hc,hm,and_false,false_or,
      or_false]
    rw [show base + span Blk.bytes xs + ((Blk.mk (b.units + c.units) false).bytes + 0) =
      base + span Blk.bytes xs + b.bytes + c.bytes by simp [Blk.bytes]; omega]

theorem InData.beyond {e : Nat} {d : Blk} (hat : At Blk.bytes base (xs ++ b :: c :: ys) e d)
    (hd : d.inuse = true) (hb : b.inuse = false) (hc : c.inuse = false) (hlo : e + 8 ≤ x)
    (hhi : x < e + d.bytes) :
    x < base + span Blk.bytes xs ∨ base + span Blk.bytes xs + b.bytes + c.bytes + 8 ≤ x := by
  have hx : InData base ((xs ++ [b]) ++ c :: ys) x :=
    ⟨e,d,by simpa using hat,hd,hlo,hhi⟩
  have hx' : InData base (xs ++ b :: (c :: ys)) x := ⟨e,d,hat,hd,hlo,hhi⟩
  have h1 := hx.around hc
  have h2 := hx'.around hb
  simp only [span_append,span_cons,span_nil] at h1
  omega

theorem trymerge_mem {p : Nat} (hb : getHeader m a = b.header p) (hp : p < 2 ^ 29)
    (h1b : 1 ≤ b.units) (h1c : 1 ≤ c.units) (hbc : b.units + c.units < 2 ^ 29)
    (hys : Chain m (a + b.bytes + c.bytes) c.units ys) (h1 : ∀ d ∈ ys, 1 ≤ d.units)
    (hfree : b.inuse = false) :
    let m₁ := setHeader m a { getHeader m a with nextblock := b.units + c.units }
    let m₂ := if ys = [] then m₁ else setHeader m₁ (a + b.bytes + c.bytes)
      { getHeader m₁ (a + b.bytes + c.bytes) with prevblock := b.units + c.units }
    let m₃ := mallocDeadbeef m₂ (a + b.bytes) mblocksize
    Chain m₃ a p (⟨b.units + c.units,false⟩ :: ys) ∧
      ∀ x, x < a ∨ (a + b.bytes + c.bytes ≤ x ∧ (ys = [] ∨ a + b.bytes + c.bytes + 8 ≤ x)) →
        m₃ x = m x := by
  intro m₁ m₂ m₃
  have hbb : b.bytes = 8 * b.units := rfl
  have hcb : c.bytes = 8 * c.units := rfl
  have hlow : getHeader m₁ a = (Blk.mk (b.units + c.units) false).header p := by
    rw [← hfree]
    exact shrunk_header hb hp hbc
  have hrest₁ : Chain m₁ (a + b.bytes + c.bytes) c.units ys :=
    hys.congr h1 fun x _ _ => setHeader_of_outside (by omega)
  have hm₃ : ∀ x, x < a + b.bytes ∨ a + b.bytes + 8 ≤ x → m₃ x = m₂ x := fun x hx =>
    mallocDeadbeef_of_outside hx
  have hm₂ : ∀ x, (x < a + b.bytes + c.bytes ∨ ys = [] ∨ a + b.bytes + c.bytes + 8 ≤ x) →
      m₂ x = m₁ x := by
    intro x hx
    by_cases hnil : ys = []
    · exact congrFun (if_pos hnil) x
    · have : m₂ = setHeader m₁ (a + b.bytes + c.bytes)
          { getHeader m₁ (a + b.bytes + c.bytes) with prevblock := b.units + c.units } :=
        if_neg hnil
      rw [this]
      refine setHeader_of_outside ?_
      rcases hx with hx | hx | hx
      · exact .inl hx
      · exact absurd hx hnil
      · exact .inr hx
  have hrest₂ : Chain m₂ (a + b.bytes + c.bytes) (b.units + c.units) ys := by
    by_cases hnil : ys = []
    · rw [hnil]
      trivial
    · have : m₂ = setHeader m₁ (a + b.bytes + c.bytes)
          { getHeader m₁ (a + b.bytes + c.bytes) with prevblock := b.units + c.units } :=
        if_neg hnil
      rw [this]
      exact hrest₁.setPrev h1 hbc
  refine ⟨⟨?_,?_⟩,fun x hx => ?_⟩
  · rw [getHeader_congr fun x _ _ => (hm₃ x (by omega)).trans (hm₂ x (by omega))]
    exact hlow
  · have hend : a + (Blk.mk (b.units + c.units) false).bytes = a + b.bytes + c.bytes := by
      unfold Blk.bytes
      dsimp only
      omega
    rw [hend]
    exact hrest₂.congr h1 fun x _ _ => hm₃ x (by omega)
  · have hx₂ : x < a + b.bytes + c.bytes ∨ ys = [] ∨ a + b.bytes + c.bytes + 8 ≤ x :=
      hx.imp (fun hx => by omega) And.right
    rw [hm₃ x (by omega),hm₂ x hx₂]
    exact setHeader_of_outside (by omega)

theorem mallocTrymerge_spec (hn : 1 ≤ n) (hl : Laid n h (xs ++ b :: c :: ys)) :
    ∃ h', mallocTrymerge h (h.heapbase + span Blk.bytes xs)
        (h.heapbase + span Blk.bytes xs + b.bytes) = .ok h' ∧ h'.heapbase = h.heapbase ∧
      h'.heaptop = h.heaptop ∧ Laid n h' (xs ++ (merged b c ++ ys)) ∧
      ∀ x, InData h.heapbase (xs ++ b :: c :: ys) x → h'.mem x = h.mem x := by
  set a := h.heapbase + span Blk.bytes xs with ha
  have hbb : b.bytes = 8 * b.units := rfl
  have hcb : c.bytes = 8 * c.units := rfl
  have hub : n ≤ b.units := hl.units b (by simp)
  have huc : n ≤ c.units := hl.units c (by simp)
  have hux : ∀ d ∈ xs, n ≤ d.units := fun d hd => hl.units d (List.mem_append_left _ hd)
  have huy : ∀ d ∈ ys, n ≤ d.units := fun d hd => hl.units d (by simp [hd])
  have h1y : ∀ d ∈ ys, 1 ≤ d.units := fun d hd => Nat.le_trans hn (huy d hd)
  obtain ⟨-,hb,hc,hys⟩ := chain_append.mp hl.chain
  have htop : h.heaptop = a + b.bytes + c.bytes + span Blk.bytes ys := by
    rw [hl.top,span_append,span_cons,span_cons]
    omega
  have hlt := hl.top_lt
  have hp : lastUnits 0 xs < 2 ^ 29 := by
    have := lastUnits_le 0 xs
    omega
  unfold mallocTrymerge
  rw [hb,hc]
  dsimp only
  rw [if_neg (by simp [Blk.header])]
  by_cases huse : b.inuse = true ∨ c.inuse = true
  · rw [if_pos (by simpa [Blk.header] using huse)]
    refine ⟨h,rfl,rfl,rfl,?_,fun _ _ => rfl⟩
    rw [show merged b c = [b,c] from if_pos huse]
    exact hl
  · rw [if_neg (by simpa [Blk.header] using huse)]
    have hfree : b.inuse = false ∧ c.inuse = false := by simpa using huse
    obtain ⟨hchain,hframe⟩ := trymerge_mem hb hp (Nat.le_trans hn hub)
      (Nat.le_trans hn huc) (by omega) hys h1y hfree.1
    have hmerged : merged b c = [⟨b.units + c.units,false⟩] := if_neg huse
    have hnext : mNext h.mem (a + b.bytes) = a + b.bytes + c.bytes := mNext_eq hc (by omega)
    have hlow := shrunk_header hb hp (n := b.units + c.units) (by omega)
    have hfield : mkfield (u32 ((mblocksize : Int) + (b.header (lastUnits 0 xs)).size +
        mblocksize + (c.header b.units).size)) = b.units + c.units := by
      rw [Blk.header_size (by omega) (by omega),Blk.header_size (by omega) (by omega)]
      unfold mkfield u32 mblocksize
      omega
    rw [hb] at hchain hframe hlow
    rw [hfield,hnext,hlow]
    have hcond : (a + b.bytes + c.bytes ≠ h.heaptop) ↔ ¬ ys = [] := by
      constructor
      · rintro hne rfl
        exact hne (by rw [htop,span_nil,Nat.add_zero])
      · intro hne heq
        exact hne (span_eq_zero h1y (by omega))
    simp only [hcond,ite_not]
    refine ⟨_,rfl,rfl,rfl,⟨hl.base_pos,hl.aligned,?_,hlt,hl.brk,?_,?_⟩,?_⟩
    · rw [htop,span_append,span_append,span_merged]
      dsimp only
      omega
    · rw [hmerged]
      exact chain_replace hl.chain (fun d hd => Nat.le_trans hn (hux d hd))
        (fun x hx => hframe x (.inl hx)) hchain
    · intro d hd
      rcases List.mem_append.mp hd with hd | hd
      · exact hux d hd
      · rcases List.mem_append.mp hd with hd | hd
        · exact units_merged hub huc d hd
        · exact huy d hd
    · rintro x ⟨e,d,hat,hd,hlo,hhi⟩
      have := InData.beyond hat hd hfree.1 hfree.2 hlo hhi
      exact hframe x (this.imp id fun hx => ⟨by omega,.inr hx⟩)

end Merge

structure Kept (h h' : Heap) (bs bs' : List Blk) : Prop where
  base : h'.heapbase = h.heapbase
  same : ∀ e d, d.inuse = true →
    (At Blk.bytes h.heapbase bs' e d ↔ At Blk.bytes h.heapbase bs e d)
  data : ∀ x, InData h.heapbase bs x → h'.mem x = h.mem x

section Free
variable {h h' h'' : Heap} {xs ys bs bs' bs'' : List Blk} {b : Blk} {n : Nat}

theorem Kept.refl (h : Heap) (bs : List Blk) : Kept h h bs bs :=
  ⟨rfl,fun _ _ _ => Iff.rfl,fun _ _ => rfl⟩

theorem Kept.inData (hk : Kept h h' bs bs') {x : Nat} (hx : InData h.heapbase bs x) :
    InData h'.heapbase bs' x := by
  obtain ⟨e,d,hat,hd,hlo,hhi⟩ := hx
  rw [hk.base]
  exact ⟨e,d,(hk.same e d hd).mpr hat,hd,hlo,hhi⟩

theorem Kept.trans (hk : Kept h h' bs bs') (hk' : Kept h' h'' bs' bs'') : Kept h h'' bs bs'' := by
  have hsame := hk'.same
  rw [hk.base] at hsame
  exact ⟨hk'.base.trans hk.base,fun e d hd => (hsame e d hd).trans (hk.same e d hd),
    fun x hx => (hk'.data x (hk.inData hx)).trans (hk.data x hx)⟩

theorem trymerge_kept {c : Blk} (hn : 1 ≤ n) (hl : Laid n h (xs ++ b :: c :: ys)) :
    ∃ h', mallocTrymerge h (h.heapbase + span Blk.bytes xs)
        (h.heapbase + span Blk.bytes xs + b.bytes) = .ok h' ∧
      Laid n h' (xs ++ (merged b c ++ ys)) ∧
      Kept h h' (xs ++ b :: c :: ys) (xs ++ (merged b c ++ ys)) := by
  obtain ⟨h',hok,hbase,-,hl',hdata⟩ := mallocTrymerge_spec hn hl
  exact ⟨h',hok,hl',hbase,at_merged,hdata⟩

variable (hn : 1 ≤ n) (hl : Laid n h (xs ++ b :: ys)) (hb : b.inuse = false)

include hn hl hb in
theorem merge_up (hys : ys.IsChain Apart) :
    ∃ h' b' ys', (if h.heapbase + span Blk.bytes xs + b.bytes ≠ h.heaptop then
        mallocTrymerge h (h.heapbase + span Blk.bytes xs)
          (h.heapbase + span Blk.bytes xs + b.bytes) else .ok h) = .ok h' ∧
      Laid n h' (xs ++ b' :: ys') ∧ b'.inuse = false ∧ (b' :: ys').IsChain Apart ∧
      Kept h h' (xs ++ b :: ys) (xs ++ b' :: ys') := by
  have htop := hl.top
  rw [span_append,span_cons] at htop
  cases ys with
  | nil =>
    rw [if_neg (by simp only [span_nil] at htop; omega)]
    exact ⟨h,b,[],rfl,hl,hb,List.isChain_singleton _,Kept.refl _ _⟩
  | cons y ys =>
    have h1y := Blk.bytes_ge (hl.nonempty hn y (by simp))
    rw [span_cons] at htop
    rw [if_pos (by omega)]
    obtain ⟨h',hok,hl',hkept⟩ := trymerge_kept hn hl
    rw [hok]
    obtain ⟨hy,hyc⟩ := List.isChain_cons.mp hys
    cases huse : y.inuse with
    | true =>
      have hm : merged b y = [b,y] := if_pos (.inr huse)
      rw [hm] at hl' hkept
      exact ⟨h',b,y :: ys,rfl,hl',hb,List.isChain_cons_cons.mpr ⟨.inr huse,hys⟩,hkept⟩
    | false =>
      have hm : merged b y = [⟨b.units + y.units,false⟩] := if_neg (by simp [hb,huse])
      rw [hm] at hl' hkept
      refine ⟨h',⟨b.units + y.units,false⟩,ys,rfl,hl',rfl,
        List.isChain_cons.mpr ⟨fun z hz => .inr ((hy z hz).resolve_left (by simp [huse])),hyc⟩,hkept⟩

theorem mPrev_eq {x : Blk} (hl : Laid n h ((xs ++ [x]) ++ b :: ys)) :
    mPrev h.mem (h.heapbase + span Blk.bytes (xs ++ [x])) = h.heapbase + span Blk.bytes xs := by
  obtain ⟨-,hb,-⟩ := chain_append.mp hl.chain
  have htop := hl.top
  have hlt := hl.top_lt
  have hx : x.bytes = 8 * x.units := rfl
  simp only [span_append,span_cons,span_nil] at htop
  have hoff : (b.header (lastUnits 0 (xs ++ [x]))).prevoff = x.bytes := by
    rw [lastUnits_append]
    unfold Mheader.prevoff u32 Blk.header lastUnits lastUnits
    omega
  unfold mPrev
  rw [hb,hoff]
  simp only [span_append,span_cons,span_nil]
  unfold u32
  omega

include hn hl hb in
theorem merge_down (hxs : xs.IsChain Apart) (hbs : (b :: ys).IsChain Apart) :
    ∃ h' bs', (if h.heapbase + span Blk.bytes xs ≠ h.heapbase then
        mallocTrymerge h (mPrev h.mem (h.heapbase + span Blk.bytes xs))
          (h.heapbase + span Blk.bytes xs) else .ok h) = .ok h' ∧
      Packed n h' bs' ∧ Kept h h' (xs ++ b :: ys) bs' := by
  rcases List.eq_nil_or_concat xs with rfl | ⟨xs,x,rfl⟩
  · rw [if_neg (by simp)]
    exact ⟨h,_,rfl,⟨hl,by simpa using hbs⟩,Kept.refl _ _⟩
  · rw [List.concat_eq_append] at hl hxs ⊢
    have h1x := Blk.bytes_ge (hl.nonempty hn x (by simp))
    have hspan : span Blk.bytes (xs ++ [x]) = span Blk.bytes xs + x.bytes := by simp
    rw [if_pos (by omega),mPrev_eq hl,hspan,← Nat.add_assoc]
    have hassoc : (xs ++ [x]) ++ b :: ys = xs ++ x :: b :: ys := by simp
    rw [hassoc] at hl ⊢
    obtain ⟨h',hok,hl',hkept⟩ := trymerge_kept hn hl
    refine ⟨h',_,hok,⟨hl',?_⟩,hkept⟩
    obtain ⟨hxc,-,hlast⟩ := List.isChain_append.mp hxs
    obtain ⟨hhead,hyc⟩ := List.isChain_cons.mp hbs
    cases huse : x.inuse with
    | true =>
      have hm : merged x b = [x,b] := if_pos (.inl huse)
      rw [hm]
      refine List.isChain_append.mpr ⟨hxc,List.isChain_cons_cons.mpr ⟨.inl huse,hbs⟩,?_⟩
      intro z hz w hw
      simp only [List.cons_append,List.head?_cons,Option.mem_some_iff] at hw
      exact .inr (by rw [← hw]; exact huse)
    | false =>
      have hm : merged x b = [⟨x.units + b.units,false⟩] := if_neg (by simp [hb,huse])
      rw [hm]
      refine List.isChain_append.mpr ⟨hxc,List.isChain_cons.mpr ⟨fun z hz => ?_,hyc⟩,?_⟩
      · exact .inr ((hhead z hz).resolve_left (by simp [hb]))
      · intro z hz w _
        exact .inl ((hlast z hz x (by simp)).resolve_right (by simp [huse]))

structure Freed (n : Nat) (h h' : Heap) (bs bs' : List Blk) (a : Nat) (b : Blk) : Prop where
  base : h'.heapbase = h.heapbase
  packed : Packed n h' bs'
  lost : ∀ e d, d.inuse = true →
    (At Blk.bytes h.heapbase bs' e d ↔ At Blk.bytes h.heapbase bs e d ∧ e ≠ a)
  data : ∀ x, InData h.heapbase bs x → x < a ∨ a + b.bytes ≤ x → h'.mem x = h.mem x

theorem mark_free (hn : 1 ≤ n) (hl : Laid n h (xs ++ b :: ys)) :
    let a := h.heapbase + span Blk.bytes xs
    let m₁ := setHeader h.mem a { getHeader h.mem a with inuse := 0 }
    let m₂ := mallocDeadbeef m₁ (a + 8) (b.bytes - 8)
    getHeader m₁ a = (Blk.mk b.units false).header (lastUnits 0 xs) ∧
      Laid n { h with mem := m₂ } (xs ++ ⟨b.units,false⟩ :: ys) ∧
      ∀ x, x < a ∨ a + b.bytes ≤ x → m₂ x = h.mem x := by
  intro a m₁ m₂
  have hbb : b.bytes = 8 * b.units := rfl
  have h1b : 1 ≤ b.units := hl.nonempty hn b (by simp)
  obtain ⟨-,hb,hys⟩ := chain_append.mp hl.chain
  have htop := hl.top
  have hlt := hl.top_lt
  rw [span_append,span_cons] at htop
  have hp : lastUnits 0 xs < 2 ^ 29 := by
    have := lastUnits_le 0 xs
    omega
  have hlow : getHeader m₁ a = (Blk.mk b.units false).header (lastUnits 0 xs) := by
    change getHeader (setHeader h.mem a _) a = _
    rw [marked_header (u := b.units) (v := b.inuse) (n := 0) hb (by decide)]
    exact getHeader_setHeader (Blk.header_fits hp (by dsimp only; omega))
  have hm₂ : ∀ x, x < a + 8 ∨ a + b.bytes ≤ x → m₂ x = m₁ x := fun x hx =>
    mallocDeadbeef_of_outside (by omega)
  have hframe : ∀ x, x < a ∨ a + b.bytes ≤ x → m₂ x = h.mem x := fun x hx =>
    (hm₂ x (by omega)).trans (setHeader_of_outside (by omega))
  have hchain : Chain m₂ h.heapbase 0 (xs ++ ⟨b.units,false⟩ :: ys) := by
    refine chain_replace hl.chain (fun d hd => hl.nonempty hn d (by simp [hd]))
      (fun x hx => hframe x (.inl hx)) ⟨?_,?_⟩
    · rw [getHeader_congr fun x _ _ => hm₂ x (by omega)]
      exact hlow
    · exact hys.congr (fun d hd => hl.nonempty hn d (by simp [hd])) fun x hx _ =>
        hframe x (.inr hx)
  refine ⟨hlow,⟨hl.base_pos,hl.aligned,?_,hlt,hl.brk,hchain,fun d hd => ?_⟩,hframe⟩
  · rw [span_append,span_cons]
    exact htop
  · rcases List.mem_append.mp hd with hd | hd
    · exact hl.units d (by simp [hd])
    · rcases List.mem_cons.mp hd with rfl | hd
      · exact hl.units b (by simp)
      · exact hl.units d (by simp [hd])

theorem at_marked (h1 : ∀ d ∈ xs ++ b :: ys, 1 ≤ d.units) {base : Nat} (e : Nat) (d : Blk)
    (hd : d.inuse = true) :
    At Blk.bytes base (xs ++ ⟨b.units, false⟩ :: ys) e d ↔
      At Blk.bytes base (xs ++ b :: ys) e d ∧ e ≠ base + span Blk.bytes xs := by
  have hne : d ≠ ⟨b.units,false⟩ := fun heq => by simp [heq] at hd
  have h1b := Blk.bytes_ge (h1 b (by simp))
  have hbb : (Blk.mk b.units false).bytes = b.bytes := rfl
  simp only [at_append,at_cons,hne,and_false,false_or,hbb]
  constructor
  · rintro (hat | hat)
    · have := at_bounds hat
      have := Blk.bytes_ge (h1 d (List.mem_append_left _ (at_mem hat)))
      exact ⟨.inl hat,by omega⟩
    · have := at_bounds hat
      exact ⟨.inr (.inr hat),by omega⟩
  · rintro ⟨hat | ⟨rfl,-⟩ | hat,hne'⟩
    · exact .inl hat
    · exact absurd rfl hne'
    · exact .inr hat

include hn hl hb in
theorem freeMerge_spec (hxs : xs.IsChain Apart) (hys : ys.IsChain Apart) :
    ∃ h' bs', freeMerge h (h.heapbase + span Blk.bytes xs) = .ok h' ∧ Packed n h' bs' ∧
      Kept h h' (xs ++ b :: ys) bs' := by
  obtain ⟨h₃,b₃,ys₃,hup,hl₃,hfree₃,hbs₃,hk₃⟩ := merge_up hn hl hb hys
  obtain ⟨h₄,bs₄,hdown,hs₄,hk₄⟩ := merge_down hn hl₃ hfree₃ hxs hbs₃
  obtain ⟨-,hhead,-⟩ := chain_append.mp hl.chain
  have htop := hl.top
  have hlt := hl.top_lt
  rw [span_append,span_cons] at htop
  refine ⟨h₄,bs₄,?_,hs₄,hk₃.trans hk₄⟩
  rw [hk₃.base] at hdown
  unfold freeMerge
  rw [mNext_eq hhead (by omega)]
  by_cases hcond : h.heapbase + span Blk.bytes xs + b.bytes ≠ h.heaptop
  · rw [if_pos hcond] at hup
    rw [if_pos hcond,hup]
    dsimp only [bind,Except.bind]
    rw [hk₃.base]
    exact hdown
  · rw [if_neg hcond] at hup
    rw [if_neg hcond,hup]
    dsimp only [bind,Except.bind]
    rw [hk₃.base]
    exact hdown

theorem free_eq {a p : Nat} (hb : getHeader h.mem a = b.header p) (huse : b.inuse = true)
    (hbase : 0 < h.heapbase) (hlo : h.heapbase ≤ a) (hhi : a + 8 < h.heaptop)
    (hlt : h.heaptop < 2 ^ 32) :
    free h (a + 8) = freeMerge { h with
      mem := mallocDeadbeef (setHeader h.mem a { getHeader h.mem a with inuse := 0 }) (a + 8)
        (getHeader (setHeader h.mem a { getHeader h.mem a with inuse := 0 }) a).size } a := by
  have hmh : u32 (((a + 8 : Nat) : Int) - (mblocksize : Nat)) = a := by
    unfold u32 mblocksize
    omega
  have hdata : u32 ((a : Int) + (mblocksize : Nat)) = a + 8 := u32_of_nat (n := a + 8) (by omega)
  have hok : (getHeader h.mem a).ok ≠ false := by rw [hb]; simp [Blk.header_ok]
  have hused : (getHeader h.mem a).inuse ≠ 0 := by rw [hb]; simp [Blk.header,huse]
  unfold free
  rw [if_neg (by omega),if_neg (by omega),if_neg (by omega)]
  rw [hmh,if_neg hok,if_neg hused,hdata]

theorem free_packed (hn : 1 ≤ n) (hs : Packed n h (xs ++ b :: ys)) (huse : b.inuse = true)
    (hin : h.heapbase + span Blk.bytes xs + 8 < h.heaptop) :
    ∃ h' bs', free h (h.heapbase + span Blk.bytes xs + 8) = .ok h' ∧
      Freed n h h' (xs ++ b :: ys) bs' (h.heapbase + span Blk.bytes xs) b := by
  have h1 := hs.nonempty hn
  have h1b := Blk.bytes_ge (h1 b (by simp))
  obtain ⟨hlow,hl,hframe⟩ := mark_free hn hs.toLaid
  obtain ⟨hxs,hbs,-⟩ := List.isChain_append.mp hs.coalesced
  have hys := (List.isChain_cons.mp hbs).2
  obtain ⟨-,hb,-⟩ := chain_append.mp hs.chain
  have htop := hs.top
  have hlt := hs.top_lt
  rw [span_append,span_cons] at htop
  have hsize : ((Blk.mk b.units false).header (lastUnits 0 xs)).size = b.bytes - 8 :=
    Blk.header_size (b := ⟨b.units,false⟩) (h1 b (by simp)) (show b.bytes < 2 ^ 32 by omega)
  obtain ⟨h',bs',hok,hs',hk⟩ := freeMerge_spec hn hl rfl hxs hys
  refine ⟨h',bs',?_,hk.base,hs',fun e d hd => ?_,fun x hx hout => ?_⟩
  · rw [free_eq hb huse hs.base_pos (by omega) hin hlt,hlow,hsize]
    exact hok
  · exact (hk.same e d hd).trans (at_marked h1 e d hd)
  · obtain ⟨e,d,hat,hd,hlo,hhi⟩ := hx
    have hne : e ≠ h.heapbase + span Blk.bytes xs := fun heq => by
      have hself : At Blk.bytes h.heapbase (xs ++ b :: ys) (h.heapbase + span Blk.bytes xs) b :=
        at_append.mpr (.inr (.inl ⟨rfl,rfl⟩))
      rw [heq] at hat
      rcases at_disjoint hat hself with ⟨-,rfl⟩ | hx | hx <;> omega
    have hin : InData h.heapbase (xs ++ ⟨b.units,false⟩ :: ys) x :=
      ⟨e,d,(at_marked h1 e d hd).mpr ⟨hat,hne⟩,hd,hlo,hhi⟩
    exact (hk.data x hin).trans (hframe x hout)

theorem free_at_top (hbase : 0 < h.heapbase) (hle : h.heapbase ≤ h.heaptop) :
    free h h.heaptop =
      .error (.errx "free: Invalid pointer %p freed (out of range)" [h.heaptop]) := by
  unfold free
  rw [if_neg (by omega),if_neg (by omega),if_pos (.inr (Nat.le_refl _))]

end Free

end OS161.Libc
