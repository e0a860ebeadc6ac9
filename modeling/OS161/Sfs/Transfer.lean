import OS161.Sfs.Device

namespace OS161

theorem offT_offT_add (x y : Int) : offT (offT x + y) = offT (x + y) := by
  exact Int.bmod_add_bmod ..

theorem u32_sub {a b : Nat} (ha : a < 2 ^ 32) (hb : b ≤ a) : u32 ((a : Int) - b) = a - b := by
  unfold u32
  omega

theorem fileblock_eq {x : Nat} (hx : x < 2 ^ 31) : u32 ((x : Int).tdiv 512) = x / 512 := by
  rw [Int.tdiv_eq_ediv_of_nonneg (by omega)]
  exact u32_of_nat (n := x / 512) (by omega)

theorem blkoff_eq {x : Nat} (hx : x < 2 ^ 31) : u32 ((x : Int).tmod 512) = x % 512 := by
  rw [Int.tmod_eq_emod_of_nonneg (by omega)]
  exact u32_of_nat (n := x % 512) (by omega)

theorem blkrest_eq (x : Nat) : u32 ((Sfs.blocksize : Int) - (x % 512 : Nat)) = 512 - x % 512 :=
  u32_sub (by decide) (Nat.le_of_lt (Nat.mod_lt _ (by decide)))

theorem assert_fits {x len : Nat} (h : x % 512 + len ≤ 512) (msg : String) :
    assert (u32 ((x % 512 : Nat) + (len : Int)) ≤ Sfs.blocksize) msg = .ok () := by
  refine assert_of (decide_eq_true ?_)
  rw [← Int.natCast_add,u32_of_nat (by omega)]
  exact h

theorem memmove_append (dst g : Mem) (i x a b : Nat) :
    memmove (memmove dst i g x a) (i + a) g (x + a) b = memmove dst i g x (a + b) := by
  funext k
  unfold memmove
  by_cases hb : i + a ≤ k ∧ k < i + a + b
  · rw [if_pos hb,if_pos (by omega)]
    congr 1
    omega
  · rw [if_neg hb]
    by_cases ha : i ≤ k ∧ k < i + a
    · rw [if_pos ha,if_pos (by omega)]
    · rw [if_neg ha,if_neg (by omega)]

theorem memmove_congr {dst src g : Mem} {i j x n : Nat} (h : ∀ k < n, src (j + k) = g (x + k)) :
    memmove dst i src j n = memmove dst i g x n := by
  funext k
  unfold memmove
  split
  · exact h (k - i) (by omega)
  · rfl

namespace Uio

structure At (cur : Curthread) (rw : UioRw) (x : Nat) (uio : Uio) : Prop where
  legal : uio.legal cur
  rw_eq : uio.rw = rw
  offset : uio.offset = x
  room : uio.resid ≤ uio.iovLen
  word : uio.resid < 2 ^ 32
  low : x < 2 ^ 31

section At
variable {cur : Curthread} {rw : UioRw} {x m n : Nat} {uio : Uio} {g : Mem}

section
variable (h : uio.At cur rw x)
include h

theorem At.resid_advance (hm : m ≤ uio.resid) : (uio.advance m).resid = uio.resid - m := u32_sub h.word hm

theorem At.offset_advance (hx : x + m < 2 ^ 31) : (uio.advance m).offset = ((x + m : Nat) : Int) := by
  dsimp only [advance]
  rw [h.offset]
  exact offT_of_lt (by omega) (by omega)

theorem At.advance (hm : m ≤ uio.resid) (hx : x + m < 2 ^ 31) :
    (uio.advance m).At cur rw (x + m) := by
  have hroom := h.room
  have hword := h.word
  have hres := h.resid_advance hm
  refine ⟨h.legal,h.rw_eq,h.offset_advance hx,?_,?_,hx⟩
  · rw [hres]
    exact Nat.sub_le_sub_right hroom m
  · omega

theorem At.fileblock : u32 (uio.offset.tdiv 512) = x / 512 := by
  rw [h.offset,fileblock_eq h.low]

theorem At.blkoff : u32 (uio.offset.tmod 512) = x % 512 := by
  rw [h.offset,blkoff_eq h.low]

theorem At.aligned (hx : x % 512 = 0) : uio.offset.tmod 512 = 0 := by
  rw [h.offset,Int.tmod_eq_emod_of_nonneg (by omega)]
  exact Int.ofNat_inj.mpr hx

theorem At.fill (ptr : Mem) (p : Nat) : (uio.fillAt ptr p m).At cur rw x :=
  ⟨h.legal,h.rw_eq,h.offset,h.room,h.word,h.low⟩

theorem At.advance_zero : uio.advance 0 = uio := by
  have hres := h.resid_advance (Nat.zero_le _)
  have hoff := h.offset_advance (m := 0) h.low
  have hx := h.offset
  cases uio
  simp only [Uio.advance,Nat.add_zero,Nat.sub_zero] at hres hoff hx ⊢
  rw [hres,hoff,hx]

theorem advance_advance (hm : m + n ≤ uio.resid) (hx : x + m + n < 2 ^ 31) :
    (uio.advance m).advance n = uio.advance (m + n) := by
  have hres := h.resid_advance (m := m) (by omega)
  have hres' := h.resid_advance hm
  have hadv := h.advance (m := m) (by omega) (by omega)
  have hres₂ := hadv.resid_advance (m := n) (by omega)
  have hoff₂ := hadv.offset_advance (m := n) hx
  have hoff' := h.offset_advance (m := m + n) (by omega)
  rw [hres] at hres₂
  cases uio
  simp only [Uio.advance] at hres' hres₂ hoff₂ hoff' ⊢
  rw [hres',hres₂,hoff₂,hoff',Nat.add_assoc x m n,Nat.add_assoc _ m n,Nat.sub_sub,
    Nat.sub_sub]

end

def took (uio : Uio) (g : Mem) (x m : Nat) : Uio := (uio.fillAt g x m).advance m

theorem took_zero (h : uio.At cur rw x) : uio.took g x 0 = uio := by
  have hfill : uio.fillAt g x 0 = uio := by
    unfold fillAt
    rw [memmove_zero]
  rw [took,hfill,h.advance_zero]

theorem At.took (h : uio.At cur rw x) (hm : m ≤ uio.resid) (hx : x + m < 2 ^ 31) :
    (uio.took g x m).At cur rw (x + m) := (h.fill g x).advance hm hx

theorem At.resid_took (h : uio.At cur rw x) (hm : m ≤ uio.resid) :
    (uio.took g x m).resid = uio.resid - m := (h.fill (m := m) g x).resid_advance hm

theorem took_took (h : uio.At cur rw x) (hm : m + n ≤ uio.resid) (hx : x + m + n < 2 ^ 31) :
    (uio.took g x m).took g (x + m) n = uio.took g x (m + n) := by
  have hfill : (uio.took g x m).fillAt g (x + m) n = (uio.fillAt g x (m + n)).advance m := by
    unfold took fillAt Uio.advance
    simp only [memmove_append]
  have hadv := advance_advance (m := m) (n := n) (h.fill (m := m + n) g x) hm hx
  rw [took,hfill,hadv,took]

theorem fillAt_congr {ptr : Mem} {p : Nat} (h : ∀ i < m, ptr (p + i) = g (x + i)) :
    uio.fillAt ptr p m = uio.fillAt g x m := by
  unfold fillAt
  rw [memmove_congr h]

theorem At.move_read (h : uio.At cur .read x) {ptr : Mem} {p : Nat} (hm : m ≤ uio.resid)
    (hg : ∀ i < m, ptr (p + i) = g (x + i)) :
    uiomoveAt cur ptr p m uio = .ok (none, ptr, uio.took g x m) ∨
      ¬ uio.ready cur ∧ uiomoveAt cur ptr p m uio = .ok (some .efault, ptr, uio) := by
  by_cases hz : m = 0
  · subst hz
    rw [took_zero h]
    exact .inl (uiomoveAt_zero h.legal ptr p)
  · rw [Uio.took,← fillAt_congr hg]
    exact uiomoveAt_read h.legal h.rw_eq ptr p (Nat.pos_of_ne_zero hz)
      (Nat.le_trans hm h.room) hm

theorem At.move_write (h : uio.At cur .write x) (ptr : Mem) (p : Nat) (hm : m ≤ uio.resid) :
    uiomoveAt cur ptr p m uio =
        .ok (none, memmove ptr p uio.iovBuf uio.iovBase m, uio.advance m) ∨
      ¬ uio.ready cur ∧ uiomoveAt cur ptr p m uio = .ok (some .efault, ptr, uio) := by
  by_cases hz : m = 0
  · subst hz
    rw [memmove_zero,h.advance_zero]
    exact .inl (uiomoveAt_zero h.legal ptr p)
  · exact uiomoveAt_write h.legal h.rw_eq ptr p (Nat.pos_of_ne_zero hz) (Nat.le_trans hm h.room) hm

theorem uiomovezerosLoop_read {fuel : Nat} (h : uio.At cur .read x) (hf : m ≤ fuel)
    (hm : m ≤ uio.resid) (hx : x + m < 2 ^ 31) (hg : ∀ i < m, g (x + i) = 0) :
    uiomovezerosLoop cur fuel m uio = .ok (none, uio.took g x m) ∨
      ¬ uio.ready cur ∧ ∃ c < m,
        uiomovezerosLoop cur fuel m uio = .ok (some .efault, uio.took g x c) := by
  induction fuel generalizing x uio m with
  | zero =>
    obtain rfl : m = 0 := by omega
    rw [took_zero h]
    exact .inl rfl
  | succ fuel ih =>
    rw [uiomovezerosLoop]
    by_cases hz : m = 0
    · subst hz
      rw [if_neg (Nat.lt_irrefl 0),took_zero h]
      exact .inl rfl
    · rw [if_pos (Nat.pos_of_ne_zero hz)]
      dsimp only
      have hle : min 16 m ≤ m := Nat.min_le_right ..
      have hzero (i : Nat) (hi : i < min 16 m) : zeros (0 + i) = g (x + i) :=
        (hg i (by omega)).symm
      rcases h.move_read (Nat.le_trans hle hm) hzero with hmv | ⟨hnr,hmv⟩
      · have hat := h.took (g := g) (Nat.le_trans hle hm) (by omega)
        have hres := h.resid_took (g := g) (Nat.le_trans hle hm)
        have hrest (i : Nat) (hi : i < m - min 16 m) : g (x + min 16 m + i) = 0 := by
          rw [Nat.add_assoc]
          exact hg _ (by omega)
        rw [uiomove,hmv,ok_bind]
        dsimp only
        rcases ih hat (by omega) (by omega) (by omega) hrest with hall | ⟨hnr,c,hc,hsome⟩
        · rw [hall,took_took h (by omega) (by omega),Nat.add_sub_cancel' hle]
          exact .inl rfl
        · rw [hsome,took_took h (by omega) (by omega)]
          exact .inr ⟨hnr,_,by omega,rfl⟩
      · rw [uiomove,hmv,ok_bind]
        refine .inr ⟨hnr,0,Nat.pos_of_ne_zero hz,?_⟩
        rw [took_zero h]

theorem uiomovezeros_read (h : uio.At cur .read x) (hm : m ≤ uio.resid) (hx : x + m < 2 ^ 31)
    (hg : ∀ i < m, g (x + i) = 0) :
    uiomovezeros cur m uio = .ok (none, uio.took g x m) ∨
      ¬ uio.ready cur ∧ ∃ c < m, uiomovezeros cur m uio = .ok (some .efault, uio.took g x c) := by
  have hrw : decide (uio.rw = .read) = true := decide_eq_true h.rw_eq
  unfold uiomovezeros
  rw [assert_of hrw,ok_bind]
  exact uiomovezerosLoop_read h (Nat.le_refl m) hm hx hg

end At

end Uio

end OS161
