import OS161.Libc.Chain

namespace OS161.Libc

open Bytes (load32 store32)
open Layout

section
variable {b : Blk} {p : Nat}

theorem Blk.header_ok : (b.header p).ok = true := rfl

theorem Blk.header_nextoff (hb : b.bytes < 2 ^ 32) : (b.header p).nextoff = b.bytes := by
  unfold Blk.bytes at hb ⊢
  unfold Mheader.nextoff u32 Blk.header
  dsimp only
  omega

theorem Blk.header_size (h1 : 1 ≤ b.units) (hb : b.bytes < 2 ^ 32) :
    (b.header p).size = b.bytes - 8 := by
  unfold Mheader.size
  rw [Blk.header_nextoff hb]
  unfold Blk.bytes at hb ⊢
  unfold u32 mblocksize
  omega

theorem Blk.header_inuse : (b.header p).inuse = b.inuse.toNat := rfl

theorem Blk.bytes_pos (h2 : 2 ≤ b.units) : 16 ≤ b.bytes := by
  unfold Blk.bytes
  omega

theorem Blk.bytes_ge (h1 : 1 ≤ b.units) : 8 ≤ b.bytes := by
  unfold Blk.bytes
  omega

end

def Apart (b c : Blk) : Prop := b.inuse = true ∨ c.inuse = true

structure Laid (n : Nat) (h : Heap) (bs : List Blk) : Prop where
  base_pos : 0 < h.heapbase
  aligned : h.heapbase % 8 = 0
  top : h.heaptop = h.heapbase + span Blk.bytes bs
  top_lt : h.heaptop < 2 ^ 32
  brk : h.brk = h.heaptop
  chain : Chain h.mem h.heapbase 0 bs
  units : ∀ b ∈ bs, n ≤ b.units

structure Packed (n : Nat) (h : Heap) (bs : List Blk) : Prop extends Laid n h bs where
  coalesced : bs.IsChain Apart

abbrev Sound (h : Heap) (bs : List Blk) : Prop := Packed 2 h bs

theorem Laid.nonempty {n : Nat} {h : Heap} {bs : List Blk} (hl : Laid n h bs) (hn : 1 ≤ n) :
    ∀ b ∈ bs, 1 ≤ b.units := fun b hb => Nat.le_trans hn (hl.units b hb)

def InData (base : Nat) (bs : List Blk) (x : Nat) : Prop :=
  ∃ a b, At Blk.bytes base bs a b ∧ b.inuse = true ∧ a + 8 ≤ x ∧ x < a + b.bytes

theorem search_step {h : Heap} {size fuel i prev : Nat} {b : Blk}
    (hh : getHeader h.mem i = b.header prev) (hi : i < h.heaptop) (h1 : 1 ≤ b.units)
    (hb : i + b.bytes < 2 ^ 32) :
    mallocSearch h size (fuel + 1) i prev =
      if b.inuse = true ∨ b.bytes < size + 8 then mallocSearch h size fuel (i + b.bytes) b.units
      else .ok (.found i) := by
  have hb32 : b.bytes < 2 ^ 32 := by omega
  have hb8 : 8 ≤ b.bytes := by
    unfold Blk.bytes
    omega
  have hnext : u32 ((i : Int) + (b.header prev).nextoff) = i + b.bytes := by
    rw [Blk.header_nextoff hb32]
    exact u32_of_nat hb
  rw [mallocSearch,if_pos hi]
  simp only [hh,Blk.header_ok,hnext,Blk.header_inuse,Blk.header_size h1 hb32]
  cases huse : b.inuse with
  | true => simp [Blk.header]
  | false =>
    by_cases hsz : b.bytes < size + 8
    · simp [Blk.header,hsz,show b.bytes - 8 < size by omega]
    · simp [Blk.header,hsz,show ¬ b.bytes - 8 < size by omega]

theorem search_spec {h : Heap} (size : Nat) {fuel i prev : Nat} {bs : List Blk}
    (hc : Chain h.mem i prev bs) (h1 : ∀ b ∈ bs, 1 ≤ b.units)
    (htop : h.heaptop = i + span Blk.bytes bs) (hlt : h.heaptop < 2 ^ 32)
    (hfuel : span Blk.bytes bs ≤ fuel) :
    (∃ xs b ys, bs = xs ++ b :: ys ∧ b.inuse = false ∧ size + 8 ≤ b.bytes ∧
      mallocSearch h size fuel i prev = .ok (.found (i + span Blk.bytes xs))) ∨
    (∀ b ∈ bs, b.inuse = true ∨ b.bytes < size + 8) ∧
      mallocSearch h size fuel i prev = .ok (.finished h.heaptop (lastUnits prev bs)) := by
  induction bs generalizing i prev fuel with
  | nil =>
    right
    rw [span_nil,Nat.add_zero] at htop
    unfold mallocSearch
    rw [if_neg (by omega),htop]
    exact ⟨fun b hb => (by cases hb),rfl⟩
  | cons b bs ih =>
    have h1b := h1 b List.mem_cons_self
    have hb := Blk.bytes_ge h1b
    rw [span_cons] at htop hfuel
    obtain ⟨fuel,rfl⟩ : ∃ k, fuel = k + 1 := ⟨fuel - 1,by omega⟩
    rw [search_step hc.1 (by omega) h1b (by omega)]
    split
    · rename_i hskip
      have hfuel' : span Blk.bytes bs ≤ fuel := by omega
      rcases ih hc.2 (fun c hc => h1 c (List.mem_cons_of_mem _ hc)) (by omega) hfuel' with
        ⟨xs,c,ys,rfl,huse,hsz,hfound⟩ | ⟨hnone,hdone⟩
      · refine .inl ⟨b :: xs,c,ys,rfl,huse,hsz,?_⟩
        rw [hfound,span_cons,Nat.add_assoc]
      · exact .inr ⟨List.forall_mem_cons.mpr ⟨hskip,hnone⟩,hdone⟩
    · rename_i hfit
      refine .inl ⟨[],b,bs,rfl,by simpa using fun h => hfit (.inl h),by omega,rfl⟩

section Split
variable {h : Heap} {a p k : Nat} {b : Blk} {ys : List Blk}

theorem mNext_eq {m : Bytes.Mem} {q : Nat} {c : Blk} (hc : getHeader m a = c.header q)
    (hlt : a + c.bytes < 2 ^ 32) : mNext m a = a + c.bytes := by
  unfold mNext
  rw [hc,Blk.header_nextoff (by omega)]
  exact u32_of_nat hlt

theorem span_eq_zero (h1 : ∀ b ∈ ys, 1 ≤ b.units) (h0 : span Blk.bytes ys = 0) : ys = [] := by
  cases ys with
  | nil => rfl
  | cons y ys =>
    have := Blk.bytes_ge (h1 y List.mem_cons_self)
    rw [span_cons] at h0
    omega

structure SplitAt (m m' : Bytes.Mem) (a p k : Nat) (b : Blk) (ys : List Blk) : Prop where
  lower : getHeader m' a = (Blk.mk (k + 1) b.inuse).header p
  upper : getHeader m' (a + 8 * (k + 1)) = (Blk.mk (b.units - (k + 1)) false).header (k + 1)
  rest : Chain m' (a + b.bytes) (b.units - (k + 1)) ys
  frame : ∀ x, x < a ∨ (a + b.bytes ≤ x ∧ (ys = [] ∨ a + b.bytes + 8 ≤ x)) → m' x = m x

theorem shrunk_header {m : Bytes.Mem} {n : Nat} (hb : getHeader m a = b.header p) (hp : p < 2 ^ 29)
    (hn : n < 2 ^ 29) :
    getHeader (setHeader m a { getHeader m a with nextblock := n }) a =
      (Blk.mk n b.inuse).header p := by
  have heq : ({ getHeader m a with nextblock := n } : Mheader) = (Blk.mk n b.inuse).header p := by
    rw [hb]
    rfl
  rw [heq,getHeader_setHeader (Blk.header_fits hp hn)]

theorem split_mem {m : Bytes.Mem} (hb : getHeader m a = b.header p) (hp : p < 2 ^ 29)
    (hys : Chain m (a + b.bytes) b.units ys) (h1 : ∀ c ∈ ys, 1 ≤ c.units)
    (hu : k + 3 ≤ b.units) (hb29 : b.units < 2 ^ 29) :
    let m₁ := setHeader m a { getHeader m a with nextblock := k + 1 }
    let m₂ := setHeader m₁ (a + 8 * (k + 1)) ⟨k + 1,0,mmagic,b.units - (k + 1),0,mmagic⟩
    let m₃ := if ys = [] then m₂ else setHeader m₂ (a + b.bytes)
      { getHeader m₂ (a + b.bytes) with prevblock := b.units - (k + 1) }
    SplitAt m m₃ a p k b ys := by
  intro m₁ m₂ m₃
  have hbytes : b.bytes = 8 * b.units := rfl
  have hm₁ : getHeader m₁ a = (Blk.mk (k + 1) b.inuse).header p :=
    shrunk_header hb hp (by omega)
  have hlow : getHeader m₂ a = (Blk.mk (k + 1) b.inuse).header p := by
    rw [← hm₁]
    exact getHeader_setHeader_of_disjoint (by omega)
  have hup : getHeader m₂ (a + 8 * (k + 1)) =
      (Blk.mk (b.units - (k + 1)) false).header (k + 1) :=
    getHeader_setHeader (Blk.header_fits (b := ⟨b.units - (k + 1),false⟩) (by omega)
      (by dsimp only; omega))
  have hout : ∀ x, x < a ∨ a + b.bytes ≤ x → m₂ x = m x := by
    intro x hx
    have hx₁ : m₂ x = m₁ x := setHeader_of_outside (by omega)
    rw [hx₁]
    exact setHeader_of_outside (by omega)
  have hrest : Chain m₂ (a + b.bytes) b.units ys :=
    hys.congr h1 fun x hx _ => hout x (.inr hx)
  by_cases hnil : ys = []
  · have hm₃ : m₃ = m₂ := if_pos hnil
    rw [hm₃]
    refine ⟨hlow,hup,?_,fun x hx => hout x (by omega)⟩
    rw [hnil]
    trivial
  · have hm₃ : m₃ = setHeader m₂ (a + b.bytes)
        { getHeader m₂ (a + b.bytes) with prevblock := b.units - (k + 1) } := if_neg hnil
    rw [hm₃]
    refine ⟨?_,?_,?_,fun x hx => ?_⟩
    · rw [getHeader_setHeader_of_disjoint (by omega)]
      exact hlow
    · rw [getHeader_setHeader_of_disjoint (by omega)]
      exact hup
    · exact hrest.setPrev h1 (by omega)
    · rw [setHeader_of_outside]
      · exact hout x (by omega)
      · rcases hx with hx | ⟨hx,hx' | hx'⟩
        · omega
        · exact absurd hx' hnil
        · omega

theorem mallocSplit_small (hb : getHeader h.mem a = b.header p) (h1 : 1 ≤ b.units)
    (hb32 : b.bytes < 2 ^ 32) (hfit : k + 1 ≤ b.units) (hu : b.units < k + 3) :
    mallocSplit h a (8 * k) = .ok h := by
  have hbytes : b.bytes = 8 * b.units := rfl
  unfold mallocSplit
  rw [if_neg (by unfold mblocksize; omega),hb,Blk.header_size h1 hb32,if_pos]
  unfold u32 mblocksize
  omega

theorem mallocSplit_large (hb : getHeader h.mem a = b.header p) (hp : p < 2 ^ 29)
    (hys : Chain h.mem (a + b.bytes) b.units ys) (h1 : ∀ c ∈ ys, 1 ≤ c.units)
    (htop : h.heaptop = a + b.bytes + span Blk.bytes ys) (hlt : h.heaptop < 2 ^ 32)
    (hu : k + 3 ≤ b.units) :
    ∃ m', mallocSplit h a (8 * k) = .ok { h with mem := m' } ∧ SplitAt h.mem m' a p k b ys := by
  have hbytes : b.bytes = 8 * b.units := rfl
  have hb32 : b.bytes < 2 ^ 32 := by omega
  have hs := split_mem hb hp hys h1 hu (by omega)
  refine ⟨_,?_,hs⟩
  have hsize : (getHeader h.mem a).size = b.bytes - 8 := by
    rw [hb]
    exact Blk.header_size (by omega) hb32
  have hfield : mkfield (u32 (((8 * k : Nat) : Int) + (mblocksize : Nat))) = k + 1 := by
    unfold mkfield u32 mblocksize
    omega
  have hupper : mkfield (u32 (((b.bytes - 8 : Nat) : Int) - ((8 * k : Nat) : Int))) =
      b.units - (k + 1) := by
    unfold mkfield u32
    omega
  have hnext : mNext h.mem a = a + b.bytes := mNext_eq hb (by omega)
  unfold mallocSplit
  rw [if_neg (by unfold mblocksize; omega),if_neg]
  · have hlow := shrunk_header hb hp (n := k + 1) (by omega)
    have hnew : mNext (setHeader h.mem a { getHeader h.mem a with nextblock := k + 1 }) a =
        a + 8 * (k + 1) := mNext_eq hlow (by unfold Blk.bytes; dsimp only; omega)
    have hup : ∀ m, (getHeader (setHeader m (a + 8 * (k + 1))
        ⟨k + 1,0,mmagic,b.units - (k + 1),0,mmagic⟩) (a + 8 * (k + 1))).nextblock =
        b.units - (k + 1) := fun m => by
      have hf : (Mheader.mk (k + 1) 0 mmagic (b.units - (k + 1)) 0 mmagic).Fits :=
        Blk.header_fits (b := ⟨b.units - (k + 1),false⟩) (by omega) (by dsimp only; omega)
      rw [getHeader_setHeader hf]
    simp only [hsize,hfield,hupper,hnext,hnew,hup]
    rw [if_neg (by omega)]
    by_cases hnil : ys = []
    · have hend : a + b.bytes = h.heaptop := by rw [htop,hnil,span_nil,Nat.add_zero]
      rw [if_neg (not_not_intro hend),if_pos hnil]
    · have hend : a + b.bytes ≠ h.heaptop := fun heq => hnil (span_eq_zero h1 (by omega))
      rw [if_pos hend,if_neg hnil]
  · rw [hsize]
    unfold u32 mblocksize
    omega

end Split

def taken (b : Blk) (k : Nat) : List Blk :=
  if b.units < k + 3 then [⟨b.units, true⟩] else [⟨k + 1, true⟩, ⟨b.units - (k + 1), false⟩]

section Take
variable {h : Heap} {xs ys zs : List Blk} {b : Blk} {k : Nat}

theorem lastUnits_le (p : Nat) (xs : List Blk) :
    8 * lastUnits p xs ≤ 8 * p + span Blk.bytes xs := by
  induction xs generalizing p with
  | nil => simp [lastUnits]
  | cons x xs ih =>
    have := ih x.units
    have hx : x.bytes = 8 * x.units := rfl
    simp only [lastUnits,span_cons]
    omega

theorem chain_replace {m m' : Bytes.Mem} {base p : Nat} (hc : Chain m base p (xs ++ ys))
    (h1 : ∀ c ∈ xs, 1 ≤ c.units) (hm : ∀ x, x < base + span Blk.bytes xs → m' x = m x)
    (hzs : Chain m' (base + span Blk.bytes xs) (lastUnits p xs) zs) :
    Chain m' base p (xs ++ zs) :=
  chain_append.mpr ⟨(chain_append.mp hc).1.congr h1 fun x _ hx => hm x hx,hzs⟩

theorem span_taken : span Blk.bytes (taken b k) = b.bytes := by
  unfold taken
  split <;> simp [Blk.bytes]
  omega

theorem units_taken {n : Nat} (hn : n ≤ 2) (hk : n ≤ k + 1) (hb : n ≤ b.units) :
    ∀ c ∈ taken b k, n ≤ c.units := by
  unfold taken
  split <;> simp <;> omega

theorem coalesced_taken (hc : (xs ++ b :: ys).IsChain Apart) (hfree : b.inuse = false) :
    (xs ++ (taken b k ++ ys)).IsChain Apart := by
  obtain ⟨hx,hbs,-⟩ := List.isChain_append.mp hc
  obtain ⟨hb,hy⟩ := List.isChain_cons.mp hbs
  have hhead : ∀ y, y ∈ ys.head? → y.inuse = true := fun y hy =>
    (hb y hy).resolve_left (by simp [hfree])
  have htail : ((taken b k).tail ++ ys).IsChain Apart ∧ ∃ u, taken b k = ⟨u,true⟩ :: (taken b k).tail := by
    unfold taken
    split
    · exact ⟨by simpa using hy,_,rfl⟩
    · exact ⟨List.isChain_cons.mpr ⟨fun y hy' => .inr (hhead y hy'),hy⟩,_,rfl⟩
  obtain ⟨htl,u,hu⟩ := htail
  rw [hu]
  refine List.isChain_append.mpr ⟨hx,List.isChain_cons.mpr ⟨fun _ _ => .inl rfl,htl⟩,?_⟩
  intro x _ y hy'
  simp only [List.cons_append,List.head?_cons,Option.mem_some_iff] at hy'
  exact .inr (by rw [← hy'])

theorem mallocSplit_spec {a p : Nat} (hb : getHeader h.mem a = b.header p) (hp : p < 2 ^ 29)
    (hys : Chain h.mem (a + b.bytes) b.units ys) (h1 : ∀ c ∈ ys, 1 ≤ c.units)
    (htop : h.heaptop = a + b.bytes + span Blk.bytes ys) (hlt : h.heaptop < 2 ^ 32)
    (hfit : k + 1 ≤ b.units) (hfree : b.inuse = false) :
    ∃ m' u tl, mallocSplit h a (8 * k) = .ok { h with mem := m' } ∧
      taken b k = ⟨u, true⟩ :: tl ∧ 1 ≤ u ∧ u < 2 ^ 29 ∧
      getHeader m' a = (Blk.mk u false).header p ∧ Chain m' (a + 8 * u) u (tl ++ ys) ∧
      ∀ x, x < a ∨ (a + b.bytes ≤ x ∧ (ys = [] ∨ a + b.bytes + 8 ≤ x)) → m' x = h.mem x := by
  have hbytes : b.bytes = 8 * b.units := rfl
  by_cases hu : b.units < k + 3
  · refine ⟨h.mem,b.units,[],mallocSplit_small hb (by omega) (by omega) hfit hu,
      if_pos hu,by omega,by omega,?_,hys,fun _ _ => rfl⟩
    rw [hb,← hfree]
  · obtain ⟨m',hm',hs⟩ := mallocSplit_large hb hp hys h1 htop hlt (by omega : k + 3 ≤ b.units)
    refine ⟨m',k + 1,[⟨b.units - (k + 1),false⟩],hm',if_neg hu,by omega,by omega,?_,?_,
      hs.frame⟩
    · rw [hs.lower,hfree]
    · refine ⟨hs.upper,?_⟩
      have heq : a + 8 * (k + 1) + (Blk.mk (b.units - (k + 1)) false).bytes = a + b.bytes := by
        unfold Blk.bytes
        dsimp only
        omega
      rw [heq]
      exact hs.rest

theorem InData.around {base x : Nat} (hx : InData base (xs ++ b :: ys) x) (hfree : b.inuse = false) :
    x < base + span Blk.bytes xs ∨ base + span Blk.bytes xs + b.bytes + 8 ≤ x := by
  obtain ⟨c,d,hat,huse,hlo,hhi⟩ := hx
  rcases at_append.mp hat with hat | hat
  · have := at_bounds hat
    omega
  · rcases at_cons.mp hat with ⟨-,rfl⟩ | hat
    · rw [hfree] at huse
      cases huse
    · have := at_bounds hat
      omega

theorem marked_header {m : Bytes.Mem} {a p u n : Nat} {v : Bool}
    (hlow : getHeader m a = (Blk.mk u v).header p) (hn : n < 2) :
    ({ getHeader m a with inuse := n } : Mheader) = (Blk.mk u (n = 1)).header p := by
  rw [hlow]
  have : n = 0 ∨ n = 1 := by omega
  rcases this with rfl | rfl <;> rfl

theorem mallocTake_spec {n : Nat} (hn : 1 ≤ n) (hn2 : n ≤ 2) (hs : Laid n h (xs ++ b :: ys))
    (hfree : b.inuse = false) (hk : n ≤ k + 1) (hfit : k + 1 ≤ b.units) :
    ∃ h', mallocTake h (h.heapbase + span Blk.bytes xs) (8 * k) =
        .ok (h.heapbase + span Blk.bytes xs + 8, h') ∧
      h'.heapbase = h.heapbase ∧ Laid n h' (xs ++ (taken b k ++ ys)) ∧
      ∀ x, InData h.heapbase (xs ++ b :: ys) x → h'.mem x = h.mem x := by
  set a := h.heapbase + span Blk.bytes xs with ha
  have hbytes : b.bytes = 8 * b.units := rfl
  have hux : ∀ c ∈ xs, n ≤ c.units := fun c hc => hs.units c (List.mem_append_left _ hc)
  have hub : n ≤ b.units := hs.units b (by simp)
  have huy : ∀ c ∈ ys, n ≤ c.units := fun c hc => hs.units c (by simp [hc])
  have h1x : ∀ c ∈ xs, 1 ≤ c.units := fun c hc => Nat.le_trans hn (hux c hc)
  have h1y : ∀ c ∈ ys, 1 ≤ c.units := fun c hc => Nat.le_trans hn (huy c hc)
  obtain ⟨-,hb,hys⟩ := chain_append.mp hs.chain
  have hp : lastUnits 0 xs < 2 ^ 29 := by
    have := lastUnits_le 0 xs
    have := hs.top
    have := hs.top_lt
    rw [span_append] at *
    omega
  have htop : h.heaptop = a + b.bytes + span Blk.bytes ys := by
    rw [hs.top,span_append,span_cons]
    omega
  obtain ⟨m',u,tl,hm',htk,hu1,hu29,hlow,hrest,hframe⟩ :=
    mallocSplit_spec hb hp hys h1y htop hs.top_lt hfit hfree
  have hmark := marked_header hlow (n := 1) (by decide)
  have hfits : ((Blk.mk u true).header (lastUnits 0 xs)).Fits := Blk.header_fits hp hu29
  have hlt := hs.top_lt
  have hspan : span Blk.bytes (xs ++ (taken b k ++ ys)) = span Blk.bytes (xs ++ b :: ys) := by
    simp only [span_append,span_cons,span_taken]
  refine ⟨{ h with mem := setHeader m' a ((Blk.mk u true).header (lastUnits 0 xs)) },?_,rfl,
    ⟨hs.base_pos,hs.aligned,?_,hlt,hs.brk,?_,?_⟩,fun x hx => ?_⟩
  · unfold mallocTake
    rw [hm']
    dsimp only [bind,Except.bind]
    rw [hmark]
    have hpt : u32 ((a : Int) + (mblocksize : Nat)) = a + 8 := u32_of_nat (n := a + 8) (by omega)
    rw [hpt]
    rfl
  · exact hs.top.trans (by rw [hspan])
  · rw [htk]
    refine chain_replace hs.chain h1x (fun x hx => ?_) ⟨getHeader_setHeader hfits,?_⟩
    · exact (setHeader_of_outside (.inl hx)).trans (hframe x (.inl hx))
    · refine hrest.congr (fun c hc => Nat.le_trans hn ?_) fun x hx _ =>
        setHeader_of_outside (.inr (by omega))
      rcases List.mem_append.mp hc with hc | hc
      · exact units_taken hn2 hk hub c (by rw [htk]; exact List.mem_cons_of_mem _ hc)
      · exact huy c hc
  · intro c hc
    rcases List.mem_append.mp hc with hc | hc
    · exact hux c hc
    · rcases List.mem_append.mp hc with hc | hc
      · exact units_taken hn2 hk hub c hc
      · exact huy c hc
  · have hx' := hx.around hfree
    have hout : setHeader m' a ((Blk.mk u true).header (lastUnits 0 xs)) x = m' x :=
      setHeader_of_outside (by omega)
    exact hout.trans (hframe x (by omega))

end Take

section
variable {h : Heap} {bs : List Blk} {k n : Nat} {g : Grants}

theorem Laid.lastUnits_lt (hs : Laid n h bs) : lastUnits 0 bs < 2 ^ 29 := by
  have := lastUnits_le 0 bs
  have := hs.top
  have := hs.top_lt
  omega

theorem mallocExtend_refused (hs : Laid n h bs) (hk29 : k + 1 < 2 ^ 29)
    (hg : ¬ (g.grow = true ∧ h.heaptop + 8 * (k + 1) < 2 ^ 32)) (prev : Nat) :
    mallocExtend extending h (8 * k) prev g = .ok (0, h) := by
  have hn : u32 (((8 * k : Nat) : Int) + (mblocksize : Nat)) = 8 * (k + 1) := by
    unfold u32 mblocksize
    omega
  rw [← hs.brk] at hg
  unfold mallocExtend mallocSbrk extending
  rw [hn,if_neg hg]
  rfl

theorem mallocExtend_granted (hs : Laid n h bs) (hn : 1 ≤ n) (hk : n ≤ k + 1)
    (hk29 : k + 1 < 2 ^ 29) (hg : g.grow = true ∧ h.heaptop + 8 * (k + 1) < 2 ^ 32) :
    ∃ h', mallocExtend extending h (8 * k) (lastUnits 0 bs) g = .ok (h.heaptop + 8, h') ∧
      h'.heapbase = h.heapbase ∧ Laid n h' (bs ++ [⟨k + 1, true⟩]) ∧
      ∀ x, x < h.heaptop → h'.mem x = h.mem x := by
  have hsum : u32 (((8 * k : Nat) : Int) + (mblocksize : Nat)) = 8 * (k + 1) := by
    unfold u32 mblocksize
    omega
  have hlt := hg.2
  have hfield : mkfield (8 * (k + 1)) = k + 1 := by
    unfold mkfield
    omega
  have hfits : ((Blk.mk (k + 1) true).header (lastUnits 0 bs)).Fits :=
    Blk.header_fits hs.lastUnits_lt hk29
  have htop : u32 ((h.heaptop : Int) + ((8 * (k + 1) : Nat) : Int)) = h.heaptop + 8 * (k + 1) :=
    u32_of_nat (n := h.heaptop + 8 * (k + 1)) hlt
  have hptr : u32 ((h.heaptop : Int) + (mblocksize : Nat)) = h.heaptop + 8 :=
    u32_of_nat (n := h.heaptop + 8) (by omega)
  rw [← hs.brk] at hg
  unfold mallocExtend mallocSbrk extending
  rw [hsum,if_pos hg]
  dsimp only [bind,Except.bind]
  rw [if_neg (not_not_intro hs.brk)]
  dsimp only
  rw [hs.brk,htop,hptr,hfield]
  refine ⟨_,rfl,rfl,⟨hs.base_pos,hs.aligned,?_,hlt,rfl,?_,?_⟩,fun x hx =>
    setHeader_of_outside (.inl hx)⟩
  · simp only [span_append,span_cons,span_nil,hs.top,Blk.bytes]
    omega
  · refine chain_append.mpr ⟨hs.chain.congr (hs.nonempty hn)
      fun x _ hx => setHeader_of_outside (.inl (by rw [hs.top]; exact hx)),?_,trivial⟩
    rw [← hs.top]
    exact getHeader_setHeader hfits
  · intro c hc
    rcases List.mem_append.mp hc with hc | hc
    · exact hs.units c hc
    · rw [List.mem_singleton.mp hc]
      exact hk

theorem coalesced_extend (hc : bs.IsChain Apart) : (bs ++ [Blk.mk (k + 1) true]).IsChain Apart := by
  refine List.isChain_append.mpr ⟨hc,List.isChain_singleton _,fun x _ y hy => ?_⟩
  simp only [List.head?_cons,Option.mem_some_iff] at hy
  exact .inr (by rw [← hy])

theorem packed_nil (hbase : 0 < h.heapbase) (hal : h.heapbase % 8 = 0) (htop : h.heaptop = h.heapbase)
    (hlt : h.heaptop < 2 ^ 32) (hbrk : h.brk = h.heaptop) : Packed n h [] :=
  ⟨⟨hbase,hal,htop,hlt,hbrk,trivial,fun b hb => (by cases hb)⟩,List.isChain_nil⟩

theorem mallocInit_spec (hbase : h.heapbase = 0) (htop : h.heaptop = 0) (hbrk : 0 < h.brk)
    (hlt : h.brk < 2 ^ 32) :
    (∃ msg, mallocInit extending h g = .error (.err msg)) ∨
      ∃ h', mallocInit extending h g = .ok h' ∧ (∀ n, Packed n h' []) ∧ h.brk ≤ h'.heapbase ∧
        h'.heapbase < h.brk + 8 := by
  unfold mallocInit extending
  rw [if_neg (by omega)]
  by_cases hprobe : g.probe = true ∧ h.brk + 0 < 2 ^ 32
  · rw [if_pos hprobe]
    dsimp only
    rw [if_neg (by omega)]
    unfold mallocAlign
    by_cases hal : h.brk % mblocksize ≠ 0
    · rw [if_pos hal]
      dsimp only
      by_cases hgrant : g.align = true ∧
          h.brk + 0 + (mblocksize - h.brk % mblocksize) < 2 ^ 32
      · rw [if_pos hgrant]
        dsimp only
        rw [if_neg (by omega)]
        right
        unfold mblocksize at hal hgrant ⊢
        have hnew : u32 ((h.brk : Int) + ((8 - h.brk % 8 : Nat) : Int)) =
            h.brk + (8 - h.brk % 8) :=
          u32_of_nat (n := h.brk + (8 - h.brk % 8)) (by omega)
        rw [hnew]
        refine ⟨_,rfl,fun n => packed_nil ?_ ?_ ?_ ?_ ?_,?_,?_⟩ <;> dsimp only <;> omega
      · rw [if_neg hgrant]
        exact .inl ⟨_,rfl⟩
    · rw [if_neg hal]
      right
      unfold mblocksize at hal
      refine ⟨_,rfl,fun n => packed_nil ?_ ?_ ?_ ?_ ?_,?_,?_⟩ <;> dsimp only <;> omega
  · rw [if_neg hprobe]
    exact .inl ⟨_,rfl⟩

end

structure Gained (n : Nat) (h h' : Heap) (bs bs' : List Blk) (a size : Nat) : Prop where
  base : h'.heapbase = h.heapbase
  laid : Laid n h' bs'
  coalesced : bs.IsChain Apart → bs'.IsChain Apart
  gained : ∃ b, b.inuse = true ∧ size + 8 ≤ b.bytes ∧ ∀ c d, d.inuse = true →
    (At Blk.bytes h.heapbase bs' c d ↔ At Blk.bytes h.heapbase bs c d ∨ (c = a ∧ d = b))
  fresh : ∀ d, d.inuse = true → ¬ At Blk.bytes h.heapbase bs a d
  data : ∀ x, InData h.heapbase bs x → h'.mem x = h.mem x

section Malloc
variable {h : Heap} {xs ys bs : List Blk} {b : Blk} {base k n : Nat} {g : Grants}

theorem taken_eq (b : Blk) (k : Nat) : ∃ u tl, taken b k = ⟨u, true⟩ :: tl ∧
    (k + 1 ≤ b.units → k + 1 ≤ u) ∧ ∀ c ∈ tl, c.inuse = false := by
  unfold taken
  split
  · exact ⟨b.units,[],rfl,id,nofun⟩
  · exact ⟨k + 1,_,rfl,fun _ => Nat.le_refl _,by simp⟩

theorem at_mem {a : Nat} {c : Blk} (hat : At Blk.bytes base bs a c) : c ∈ bs := by
  obtain ⟨xs,ys,rfl,-⟩ := at_split.mp hat
  simp

theorem at_taken {u : Nat} {tl : List Blk} (hfree : b.inuse = false)
    (htk : taken b k = ⟨u, true⟩ :: tl) (htl : ∀ c ∈ tl, c.inuse = false) (c : Nat) (d : Blk)
    (hd : d.inuse = true) :
    At Blk.bytes base (xs ++ (taken b k ++ ys)) c d ↔
      At Blk.bytes base (xs ++ b :: ys) c d ∨ (c = base + span Blk.bytes xs ∧ d = ⟨u, true⟩) := by
  have hspan : span Blk.bytes (taken b k) = b.bytes := span_taken
  have htaken : At Blk.bytes (base + span Blk.bytes xs) (taken b k) c d ↔
      c = base + span Blk.bytes xs ∧ d = ⟨u,true⟩ := by
    rw [htk,at_cons]
    refine or_iff_left fun hat => ?_
    rw [htl d (at_mem hat)] at hd
    cases hd
  have hb : At Blk.bytes (base + span Blk.bytes xs) (b :: ys) c d ↔
      At Blk.bytes (base + span Blk.bytes xs + b.bytes) ys c d := by
    rw [at_cons]
    refine or_iff_right fun hat => ?_
    rw [hat.2,hfree] at hd
    cases hd
  rw [at_append,at_append,at_append,htaken,hspan,hb]
  tauto

theorem gained_take (want : Nat) (hn : 1 ≤ n) (hn2 : n ≤ 2) (hs : Laid n h (xs ++ b :: ys))
    (hfree : b.inuse = false) (hk : n ≤ k + 1) (hfit : k + 1 ≤ b.units) (hwant : want ≤ 8 * k) :
    ∃ h' bs', mallocTake h (h.heapbase + span Blk.bytes xs) (8 * k) =
        .ok (h.heapbase + span Blk.bytes xs + 8, h') ∧
      Gained n h h' (xs ++ b :: ys) bs' (h.heapbase + span Blk.bytes xs) want := by
  obtain ⟨h',hok,hbase,hlaid,hdata⟩ := mallocTake_spec hn hn2 hs hfree hk hfit
  obtain ⟨u,tl,htk,hu,htl⟩ := taken_eq b k
  refine ⟨h',_,hok,hbase,hlaid,fun hc => coalesced_taken hc hfree,
    ⟨⟨u,true⟩,rfl,?_,at_taken hfree htk htl⟩,?_,hdata⟩
  · have := hu hfit
    unfold Blk.bytes
    dsimp only
    omega
  · intro d hd hat
    have hb : At Blk.bytes h.heapbase (xs ++ b :: ys) (h.heapbase + span Blk.bytes xs) b :=
      at_append.mpr (.inr (.inl ⟨rfl,rfl⟩))
    have h1b := Blk.bytes_ge (hs.nonempty hn b (by simp))
    have h1d := Blk.bytes_ge (hs.nonempty hn d (at_mem hat))
    rcases at_disjoint hat hb with ⟨-,rfl⟩ | hx | hx
    · rw [hfree] at hd
      cases hd
    · omega
    · omega

theorem gained_extend (want : Nat) (hn : 1 ≤ n) (hs : Laid n h bs) (hk : n ≤ k + 1)
    (hk29 : k + 1 < 2 ^ 29) (hwant : want ≤ 8 * k)
    (hg : g.grow = true ∧ h.heaptop + 8 * (k + 1) < 2 ^ 32) :
    ∃ h' bs', mallocExtend extending h (8 * k) (lastUnits 0 bs) g = .ok (h.heaptop + 8, h') ∧
      Gained n h h' bs bs' h.heaptop want := by
  obtain ⟨h',hok,hbase,hlaid,hdata⟩ := mallocExtend_granted hs hn hk hk29 hg
  refine ⟨h',_,hok,hbase,hlaid,coalesced_extend,⟨⟨k + 1,true⟩,rfl,?_,fun c d _ => ?_⟩,
    fun d _ hat => ?_,fun x hx => ?_⟩
  · unfold Blk.bytes
    dsimp only
    omega
  · rw [at_append,at_cons,hs.top]
    simp
  · have := at_bounds hat
    have h1d := Blk.bytes_ge (hs.nonempty hn d (at_mem hat))
    rw [← hs.top] at this
    omega
  · obtain ⟨c,d,hat,-,-,hhi⟩ := hx
    have := at_bounds hat
    exact hdata x (by rw [hs.top]; omega)

def Refuses (h : Heap) (bs : List Blk) (k : Nat) (g : Grants) : Prop :=
  (∀ b ∈ bs, b.inuse = true ∨ b.bytes < 8 * k + 8) ∧
    ¬ (g.grow = true ∧ h.heaptop + 8 * (k + 1) < 2 ^ 32)

theorem malloc_initialised (sbrk : Sbrk) (size : Nat) (g : Grants) (hs : Laid n h bs) (hn : 1 ≤ n) :
    (∃ xs b ys, bs = xs ++ b :: ys ∧ b.inuse = false ∧ roundUp size + 8 ≤ b.bytes ∧
        malloc sbrk h size g = mallocTake h (h.heapbase + span Blk.bytes xs) (roundUp size)) ∨
      (∀ b ∈ bs, b.inuse = true ∨ b.bytes < roundUp size + 8) ∧
        malloc sbrk h size g = mallocExtend sbrk h (roundUp size) (lastUnits 0 bs) g := by
  have hbase := hs.base_pos
  have hle : h.heapbase ≤ h.heaptop := by
    rw [hs.top]
    omega
  have hfuel : span Blk.bytes bs ≤ h.heaptop - h.heapbase := by
    rw [hs.top]
    omega
  unfold malloc
  dsimp only [bind,Except.bind]
  rw [if_neg (by omega)]
  rw [if_neg (by omega)]
  rcases search_spec (roundUp size) hs.chain (hs.nonempty hn) hs.top hs.top_lt hfuel with
    ⟨xs,b,ys,rfl,hfree,hfit,hfound⟩ | ⟨hnone,hdone⟩
  · rw [hfound]
    exact .inl ⟨xs,b,ys,rfl,hfree,hfit,rfl⟩
  · rw [hdone]
    dsimp only
    rw [if_neg (not_not_intro rfl)]
    exact .inr ⟨hnone,rfl⟩

theorem malloc_laid {size : Nat} (want : Nat) (g : Grants) (hn : 1 ≤ n) (hn2 : n ≤ 2) (hs : Laid n h bs)
    (hround : roundUp size = 8 * k) (hk : n ≤ k + 1) (hk29 : k + 1 < 2 ^ 29) (hwant : want ≤ 8 * k) :
    Refuses h bs k g ∧ malloc extending h size g = .ok (0, h) ∨
      ¬ Refuses h bs k g ∧
        ∃ a h' bs', malloc extending h size g = .ok (a + 8, h') ∧ Gained n h h' bs bs' a want := by
  rcases malloc_initialised extending size g hs hn with
    ⟨xs,b,ys,rfl,hfree,hfit,heq⟩ | ⟨hnone,heq⟩
  · have hbytes : b.bytes = 8 * b.units := rfl
    rw [hround] at hfit heq
    obtain ⟨h',bs',hok,hgain⟩ := gained_take want hn hn2 hs hfree hk (by omega) hwant
    refine .inr ⟨fun hr => ?_,_,h',bs',heq.trans hok,hgain⟩
    rcases hr.1 b (by simp) with huse | hlt
    · rw [hfree] at huse
      cases huse
    · omega
  · rw [hround] at hnone heq
    by_cases hg : g.grow = true ∧ h.heaptop + 8 * (k + 1) < 2 ^ 32
    · obtain ⟨h',bs',hok,hgain⟩ := gained_extend want hn hs hk hk29 hwant hg
      exact .inr ⟨fun hr => hr.2 hg,_,h',bs',heq.trans hok,hgain⟩
    · exact .inl ⟨⟨hnone,hg⟩,heq.trans (mallocExtend_refused hs hk29 hg _)⟩

theorem roundUp_eq (size : Nat) (hlt : size + 8 ≤ 2 ^ 32) :
    roundUp size = 8 * ((size + 7) / 8) := by
  unfold roundUp u32 mblocksize
  omega

end Malloc

end OS161.Libc
