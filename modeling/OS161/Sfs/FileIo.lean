import OS161.Sfs.Bmap
import OS161.Sfs.Transfer

namespace OS161.Sfs

open Function

section
variable {lost : Nat → Prop} {d : Nat → Byte} {lo hi b fb : Nat} {fs : Fs} {node : Nodes} {sv : Sv}
  {o : Owner}

theorem fileSlot_ne_indirect {k k' : Nat} (h : fileSlot k fb = some o) : o ≠ .indirect k' := by
  rintro rfl
  unfold fileSlot at h
  grind

theorem writes_data (hs : Sound lost fs node) (hk : node sv.ino = some sv.inode)
    (hslot : fileSlot sv.ino fb = some o) (ho : held fs.disk node o = some b) {data : Block}
    (hin : ∀ y, lo ≤ y → y < hi → y / 512 = fb)
    (hdata : ∀ y, y / 512 = fb → data.toMem (y % 512) =
      if lo ≤ y ∧ y < hi then d y else (fs.disk b).toMem (y % 512)) :
    Fills lost d lo hi fs node sv (fs.store b data) sv := by
  have hinj (o' : Owner) (ho' : held fs.disk node o' = some b) : o' = o :=
    hs.ledger.inj _ _ b ho' ho
  have hheld : held (fs.store b data).disk node = held fs.disk node :=
    held_update_disk (fun k' hk' => fileSlot_ne_indirect hslot (hinj _ hk').symm) data
  have hcell : cell (fs.store b data).disk node = update (cell fs.disk node) o data := by
    unfold cell
    rw [hheld]
    exact Ledger.cell_write data hinj ho
  refine ⟨⟨⟨rfl,rfl,fun _ => rfl,?_,fun o' ho' => ?_⟩,rfl,fun x => ?_⟩,fun o' b' ho' => ?_,
    fun x hlo hhi => ⟨b,?_⟩⟩
  · rw [put_self hk]
    refine ⟨hs.withDisk _,?_⟩
    rw [hheld]
    exact hs.ledger
  · have hne : o' ≠ o := by
      rintro rfl
      rw [fileSlot_isData hslot] at ho'
      cases ho'
    rw [put_self hk,hheld,hcell,update_of_ne hne]
    exact ⟨rfl,rfl⟩
  · rw [put_self hk]
    unfold fileByte
    rw [hcell]
    by_cases hx : x / 512 = fb
    · rw [hx,hslot]
      dsimp only
      rw [update_self,hdata x hx,cell,Ledger.cell_of_some ho]
    · rw [if_neg fun h => hx (hin x h.1 h.2)]
      cases hx' : fileSlot sv.ino (x / 512) with
      | none => rfl
      | some o' =>
        have hne : o' ≠ o := by
          rintro rfl
          exact hx (fileSlot_inj hx' hslot)
        dsimp only
        rw [update_of_ne hne]
  · rwa [put_self hk,hheld]
  · rw [put_self hk,diskBlock,hin x hlo hhi,hslot,Option.bind_some,hheld,ho]

end

def maxBytes : Nat := 143 * 512

theorem bmap_past {x : Nat} (cur : Curthread) (fs : Fs) (sv : Sv) (hx : ¬ x < maxBytes)
    (doalloc : Bool) : bmap cur fs sv (x / 512) doalloc = .ok (.error .einval, fs, sv) := by
  refine bmap_beyond cur fs sv ?_ doalloc
  unfold maxBytes at hx
  omega

def Refused (cur : Curthread) (uio : Uio) (x : Nat) (e : Errno) : Prop :=
  e = .enospc ∨ e = .einval ∧ maxBytes ≤ x ∨ e = .efault ∧ ¬ uio.ready cur

structure Moved (why : Nat → Errno → Prop) (x len : Nat) (result : Option Errno) (c : Nat) :
    Prop where
  le : c ≤ len
  reach : 0 < c → x + c ≤ maxBytes
  all : result = none → c = len
  failed : ∀ e, result = some e → why (x + c) e
  short : ∀ e, result = some e → 0 < len → c < len

structure Feeds (cur : Curthread) (d : Nat → Byte) (x : Nat) (uio : Uio) : Prop extends
    uio.At cur .write x where
  data : ∀ i < uio.resid, uio.iovBuf (uio.iovBase + i) = d (x + i)

section
variable {why : Nat → Errno → Prop} {x m len len' c : Nat} {result : Option Errno} {e : Errno}

theorem Moved.refuse (h : why x e) : Moved why x len (some e) 0 := by
  refine ⟨Nat.zero_le _,fun h => absurd h (Nat.lt_irrefl 0),fun h => (nomatch h),fun e' he => ?_,
    fun _ _ h => h⟩
  cases he
  exact h

theorem Moved.done (h : 0 < len → x + len ≤ maxBytes) : Moved why x len none len :=
  ⟨Nat.le_refl _,h,fun _ => rfl,fun _ he => (nomatch he),fun _ he => nomatch he⟩

theorem Moved.cons (hm : 0 < m → x + m ≤ maxBytes) (h : Moved why (x + m) len result c)
    (hz : len = 0 → result = none) : Moved why x (m + len) result (m + c) := by
  refine ⟨Nat.add_le_add_left h.le m,fun hpos => ?_,fun hr => by rw [h.all hr],fun e he => ?_,
    fun e he _ => ?_⟩
  · by_cases hc : 0 < c
    · rw [← Nat.add_assoc]
      exact h.reach hc
    · obtain rfl : c = 0 := by omega
      exact hm hpos
  · rw [← Nat.add_assoc]
    exact h.failed e he
  · have hpos : 0 < len := Nat.pos_of_ne_zero fun h0 => nomatch (hz h0).symm.trans he
    exact Nat.add_lt_add_left (h.short e he hpos) m

theorem Moved.stop (h : Moved why x len (some e) c) (hle : len ≤ len') :
    Moved why x len' (some e) c := by
  have hc := h.le
  have hshort := h.short e rfl
  exact ⟨Nat.le_trans hc hle,h.reach,fun h => (nomatch h),h.failed,fun _ _ _ => by omega⟩

theorem Moved.low (h : Moved why x len result c) (hx : x < 2 ^ 31) : x + c < 2 ^ 31 := by
  have hreach := h.reach
  unfold maxBytes at hreach
  omega

end

structure Cuts (cur : Curthread) (why : Nat → Errno → Prop) (last : Nat)
    (J : Nat → Fs → Sv → Uio → Prop) : Prop where
  at_pos : ∀ y fs sv uio, J y fs sv uio → uio.offset = y ∧ y < 2 ^ 31 ∧ y + uio.resid = last
  part : ∀ y fs sv uio len, J y fs sv uio → len ≤ uio.resid → y % 512 + len ≤ 512 →
    ∃ result fs' sv' uio' c,
      partialio cur fs sv uio (y % 512) len = .ok (result, fs', sv', uio') ∧
      J (y + c) fs' sv' uio' ∧ Moved why y len result c
  block : ∀ y fs sv uio, J y fs sv uio → 512 ≤ uio.resid → y % 512 = 0 →
    ∃ result fs' sv' uio' c, blockio cur fs sv uio = .ok (result, fs', sv', uio') ∧
      J (y + c) fs' sv' uio' ∧ Moved why y 512 result c

section
variable {cur : Curthread} {why : Nat → Errno → Prop} {last x : Nat}
  {J : Nat → Fs → Sv → Uio → Prop} {fs : Fs} {sv : Sv} {uio : Uio}

theorem Cuts.ioBlocks (h : Cuts cur why last J) (hJ : J x fs sv uio) {n : Nat}
    (hlen : n * 512 ≤ uio.resid) (halign : x % 512 = 0) :
    ∃ result fs' sv' uio' c, ioBlocks cur n fs sv uio = .ok (result, fs', sv', uio') ∧
      J (x + c) fs' sv' uio' ∧ Moved why x (n * 512) result c ∧ (n * 512 = 0 → result = none) := by
  induction n generalizing fs sv uio x with
  | zero =>
    exact ⟨none,fs,sv,uio,0,rfl,hJ,.done fun h => absurd h (by omega),fun _ => rfl⟩
  | succ n ih =>
    rw [Nat.succ_mul] at hlen ⊢
    generalize n * 512 = rest at *
    obtain ⟨-,-,hend⟩ := h.at_pos x fs sv uio hJ
    obtain ⟨result,fs₁,sv₁,uio₁,c,hrun,hJ₁,hm⟩ := h.block x fs sv uio hJ (by omega) halign
    rw [Sfs.ioBlocks,hrun,ok_bind]
    cases result with
    | some e => exact ⟨some e,fs₁,sv₁,uio₁,c,rfl,hJ₁,hm.stop (by omega),fun h => by omega⟩
    | none =>
      obtain rfl : c = 512 := hm.all rfl
      obtain ⟨-,-,hend₁⟩ := h.at_pos _ _ _ _ hJ₁
      obtain ⟨result,fs₂,sv₂,uio₂,c,hrun₂,hJ₂,hm₂,hz⟩ := ih hJ₁ (by omega) (by omega)
      have hall := hm₂.cons hm.reach hz
      rw [Nat.add_assoc] at hJ₂
      rw [Nat.add_comm 512] at hall
      exact ⟨result,fs₂,sv₂,uio₂,512 + c,hrun₂,hJ₂,hall,fun h => by omega⟩

theorem Cuts.ioTail (h : Cuts cur why last J) (hJ : J x fs sv uio)
    (halign : uio.resid ≠ 0 → x % 512 = 0) :
    ∃ result fs' sv' uio' c, ioTail cur fs sv uio = .ok (result, fs', sv', uio') ∧
      J (x + c) fs' sv' uio' ∧ Moved why x uio.resid result c ∧
      (uio.resid = 0 → result = none) := by
  obtain ⟨hoff,-,hend⟩ := h.at_pos x fs sv uio hJ
  unfold Sfs.ioTail
  by_cases hz : uio.resid = 0
  · rw [if_pos hz,hz]
    exact ⟨none,fs,sv,uio,0,rfl,hJ,.done fun h => absurd h (Nat.lt_irrefl 0),fun _ => rfl⟩
  · have hmod : uio.offset.tmod 512 = 0 := by
      rw [hoff,Int.tmod_eq_emod_of_nonneg (by omega)]
      exact Int.ofNat_inj.mpr (halign hz)
    have hblocks : uio.resid / blocksize * 512 ≤ uio.resid := Nat.div_mul_le_self ..
    rw [if_neg hz,assert_of (decide_eq_true hmod),ok_bind]
    obtain ⟨result,fs₁,sv₁,uio₁,c,hrun,hJ₁,hm,-⟩ := h.ioBlocks hJ hblocks (halign hz)
    rw [hrun,ok_bind]
    cases result with
    | some e => exact ⟨some e,fs₁,sv₁,uio₁,c,rfl,hJ₁,hm.stop hblocks,fun h => absurd h hz⟩
    | none =>
      obtain rfl : c = uio.resid / blocksize * 512 := hm.all rfl
      generalize hq : uio.resid / blocksize * 512 = q at *
      obtain ⟨-,-,hend₁⟩ := h.at_pos _ _ _ _ hJ₁
      have hsmall : uio₁.resid < blocksize := by
        unfold blocksize at *
        omega
      have hrest : q + uio₁.resid = uio.resid := by omega
      dsimp only
      rw [assert_of (decide_eq_true hsmall),ok_bind]
      by_cases hlast : uio₁.resid > 0
      · rw [if_pos hlast]
        have hx : (x + q) % 512 = 0 := by
          have := halign hz
          omega
        have hfit : (x + q) % 512 + uio₁.resid ≤ 512 := by
          rw [hx,Nat.zero_add]
          exact Nat.le_of_lt hsmall
        obtain ⟨result,fs₂,sv₂,uio₂,c,hrun₂,hJ₂,hm₂⟩ :=
          h.part _ _ _ _ _ hJ₁ (Nat.le_refl _) hfit
        have hall := hm₂.cons hm.reach fun h => by omega
        rw [hx] at hrun₂
        rw [Nat.add_assoc] at hJ₂
        rw [hrest] at hall
        exact ⟨result,fs₂,sv₂,uio₂,q + c,hrun₂,hJ₂,hall,fun h => absurd h hz⟩
      · rw [if_neg hlast]
        obtain rfl : q = uio.resid := by omega
        exact ⟨none,fs₁,sv₁,uio₁,_,rfl,hJ₁,.done hm.reach,fun _ => rfl⟩

theorem Cuts.ioBody (h : Cuts cur why last J) (hJ : J x fs sv uio) :
    ∃ result fs' sv' uio' c, ioBody cur fs sv uio = .ok (result, fs', sv', uio') ∧
      J (x + c) fs' sv' uio' ∧ Moved why x uio.resid result c := by
  obtain ⟨hoff,hlow,hend⟩ := h.at_pos x fs sv uio hJ
  have hblk : u32 (uio.offset.tmod 512) = x % 512 := by
    rw [hoff,blkoff_eq hlow]
  unfold Sfs.ioBody
  dsimp only
  rw [hblk]
  by_cases hz : x % 512 = 0
  · rw [if_neg (not_not.mpr hz)]
    obtain ⟨result,fs',sv',uio',c,hrun,hJ',hm,-⟩ := h.ioTail hJ fun _ => hz
    exact ⟨result,fs',sv',uio',c,hrun,hJ',hm⟩
  · rw [if_pos hz,blkrest_eq]
    generalize hm0 : min (512 - x % 512) uio.resid = m
    obtain ⟨result,fs₁,sv₁,uio₁,c,hrun,hJ₁,hm⟩ := h.part _ _ _ _ m hJ (by omega) (by omega)
    rw [hrun,ok_bind]
    cases result with
    | some e => exact ⟨some e,fs₁,sv₁,uio₁,c,rfl,hJ₁,hm.stop (by omega)⟩
    | none =>
      obtain rfl : c = m := hm.all rfl
      obtain ⟨-,-,hend₁⟩ := h.at_pos _ _ _ _ hJ₁
      obtain ⟨result,fs₂,sv₂,uio₂,c',hrun₂,hJ₂,hm₂,hnone⟩ := h.ioTail hJ₁ (by omega)
      have hrest : c + uio₁.resid = uio.resid := by omega
      have hall := hm₂.cons hm.reach hnone
      rw [Nat.add_assoc] at hJ₂
      rw [hrest] at hall
      exact ⟨result,fs₂,sv₂,uio₂,c + c',hrun₂,hJ₂,hall⟩

end

section Write
variable {cur : Curthread} {lost : Nat → Prop} {d : Nat → Byte} {rw : UioRw} {x len : Nat} {fs : Fs}
  {node : Nodes} {sv : Sv} {uio : Uio}

theorem Feeds.advance {m : Nat} (h : Feeds cur d x uio) (hm : m ≤ uio.resid)
    (hx : x + m < 2 ^ 31) : Feeds cur d (x + m) (uio.advance m) := by
  refine ⟨h.toAt.advance hm hx,fun i hi => ?_⟩
  rw [h.resid_advance hm] at hi
  have hd := h.data (m + i) (by omega)
  rw [← Nat.add_assoc,← Nat.add_assoc] at hd
  exact hd

theorem slot_of_lt (hx : x < maxBytes) (k : Nat) : ∃ o, fileSlot k (x / 512) = some o :=
  exists_fileSlot (by
    unfold maxBytes at hx
    omega)

theorem toMem_move {b : Block} {src : Mem} {skip j n i : Nat} (hi : i < 512) :
    (Block.ofMem (memmove b.toMem skip src j n)).toMem i =
      if skip ≤ i ∧ i < skip + n then src (j + (i - skip)) else b.toMem i := by
  rw [toMem_ofMem hi]
  rfl

section
variable {o : Owner} {b : Nat} (hf : Feeds cur d x uio) (hs : Sound lost fs node)
  (hk : node sv.ino = some sv.inode) (hslot : fileSlot sv.ino (x / 512) = some o)
  (ho : held fs.disk node o = some b)
include hf hs hk hslot ho

theorem Feeds.fills_part (hlen : len ≤ uio.resid) (hfit : x % 512 + len ≤ 512) :
    Fills lost d x (x + len) fs node sv (fs.store b
      (Block.ofMem (memmove (fs.disk b).toMem (x % 512) uio.iovBuf uio.iovBase len))) sv := by
  refine writes_data hs hk hslot ho (fun y hlo hhi => by omega) fun y hy => ?_
  rw [toMem_move (Nat.mod_lt _ (by decide))]
  by_cases hin : x ≤ y ∧ y < x + len
  · rw [if_pos hin,if_pos (by omega),hf.data _ (by omega)]
    congr 1
    omega
  · rw [if_neg hin,if_neg (by omega)]

theorem Feeds.fills_block (hlen : 512 ≤ uio.resid) (halign : x % 512 = 0) :
    Fills lost d x (x + 512) fs node sv (fs.store b (Uio.sector uio)) sv := by
  refine writes_data hs hk hslot ho (fun y hlo hhi => by omega) fun y hy => ?_
  have hin : x ≤ y ∧ y < x + 512 := by omega
  have hmod : y % 512 < 512 := Nat.mod_lt _ (by decide)
  rw [if_pos hin,Uio.sector,toMem_ofMem hmod]
  refine (hf.data (y % 512) (by omega)).trans ?_
  congr 1
  omega

end

variable (hs : Sound lost fs node) (hk : node sv.ino = some sv.inode) (hf : Feeds cur d x uio)

include hs hk hf in
theorem partialio_write (hlen : len ≤ uio.resid) (hfit : x % 512 + len ≤ 512) :
    ∃ result fs' sv' c, partialio cur fs sv uio (x % 512) len =
        .ok (result, fs', sv', uio.advance c) ∧
      Fills lost d x (x + c) fs node sv fs' sv' ∧ Moved (Refused cur uio) x len result c ∧
      ∀ e, result = some e →
        c = 0 ∧ (e = .enospc → diskBlock fs.disk node sv.ino (x / 512) = none) := by
  have hrw : decide (uio.rw = .write) = true := decide_eq_true hf.rw_eq
  unfold partialio
  rw [assert_fits hfit,ok_bind]
  dsimp only
  rw [hf.fileblock,hrw]
  by_cases hx : x < maxBytes
  · obtain ⟨o,ho⟩ := slot_of_lt hx sv.ino
    obtain ⟨out,fs₁,sv₁,hrun,hw,hmap⟩ := @bmap_write cur lost d x fs node sv hs hk _ o ho
    rw [hrun,ok_bind]
    rcases hmap with ⟨rfl,hnone⟩ | ⟨b,rfl,hb⟩
    · refine ⟨some .enospc,fs₁,sv₁,0,?_,hw,.refuse (.inl rfl),fun _ _ => ⟨rfl,fun _ => ?_⟩⟩
      · rw [hf.advance_zero]
      · rw [diskBlock,ho,Option.bind_some,hnone]
    · have hnz := hw.sound.held_ne_zero hb
      have hreach := hw.sound.held_reaches hb
      dsimp only
      unfold partialBuf
      rw [if_neg hnz,rblock_eq hreach,ok_bind]
      dsimp only
      rcases hf.move_write (fs₁.disk b).toMem (x % 512) hlen with hmv | ⟨hnr,hmv⟩
      · have hdat := hf.fills_part hw.sound (put_apply node sv₁) (hw.ino ▸ ho) hb hlen hfit
        refine ⟨none,_,sv₁,len,?_,hw.trans hdat (Nat.le_refl _) (Nat.le_add_right _ _),
          .done fun _ => ?_,fun _ h => by cases h⟩
        · have hadv : (uio.advance len).rw = .write := hf.rw_eq
          rw [hmv,ok_bind]
          dsimp only
          rw [hadv]
          rw [wblock_eq hreach,ok_bind]
          rfl
        · unfold maxBytes at hx ⊢
          omega
      · refine ⟨some .efault,fs₁,sv₁,0,?_,hw,.refuse (.inr (.inr ⟨rfl,hnr⟩)),
          fun _ he => ⟨rfl,fun hfull => by cases hfull ▸ he⟩⟩
        rw [hmv,ok_bind,hf.advance_zero]
  · refine ⟨some .einval,fs,sv,0,?_,.refl hs hk,
      .refuse (.inr (.inl ⟨rfl,Nat.le_of_not_lt hx⟩)),
      fun _ he => ⟨rfl,fun hfull => by cases hfull ▸ he⟩⟩
    rw [bmap_past cur fs sv hx,ok_bind,hf.advance_zero]

def Uio.aim (uio : Uio) (diskoff : Int) : Uio :=
  { uio with offset := diskoff, resid := blocksize }

def Uio.restore (uio : Uio) (diskoff saveoff : Int) (saveres : Nat) : Uio :=
  { uio with
    offset := offT (offT (uio.offset - diskoff) + saveoff)
    resid := u32 (uio.resid - blocksize + saveres) }

theorem restore_advance (uio : Uio) (diskoff : Int) :
    Uio.restore ((Uio.aim uio diskoff).advance 512) diskoff uio.offset uio.resid =
      uio.advance 512 := by
  have hoff : offT (offT (offT (diskoff + (512 : Nat)) - diskoff) + uio.offset) =
      offT (uio.offset + (512 : Nat)) := by
    rw [sub_eq_add_neg,offT_offT_add,add_assoc,offT_offT_add]
    congr 1
    omega
  have hzero : u32 (((512 : Nat) : Int) - (512 : Nat)) = 0 := rfl
  unfold Uio.restore Uio.aim Uio.advance blocksize
  simp only [hoff,hzero]
  congr 2

theorem restore_aim (h : uio.At cur rw x) (diskoff : Int) :
    Uio.restore (Uio.aim uio diskoff) diskoff uio.offset uio.resid = uio := by
  have hword := h.word
  have hlow := h.low
  have hoff : offT (offT (diskoff - diskoff) + uio.offset) = uio.offset := by
    rw [offT_offT_add,h.offset]
    exact (congrArg offT (by omega)).trans (offT_of_lt (x := (x : Int)) (by omega) (by omega))
  have hres : u32 (((512 : Nat) : Int) - (512 : Nat) + uio.resid) = uio.resid := by
    rw [Int.sub_self,Int.zero_add]
    exact u32_of_nat hword
  unfold Uio.restore Uio.aim blocksize
  simp only [hoff,hres]

theorem diskoff_eq {b : Nat} (hb : b < 2 ^ 22) : offT (u32 (b * blocksize)) = b * 512 := by
  have hu : u32 ((b : Int) * blocksize) = b * 512 := u32_of_nat (n := b * 512) (by omega)
  rw [hu]
  exact offT_of_lt (by omega) (by omega)

include hs hk hf in
theorem blockio_write (hlen : 512 ≤ uio.resid) (halign : x % 512 = 0) :
    ∃ result fs' sv' c, blockio cur fs sv uio = .ok (result, fs', sv', uio.advance c) ∧
      Fills lost d x (x + c) fs node sv fs' sv' ∧ Moved (Refused cur uio) x 512 result c := by
  have hrw : decide (uio.rw = .write) = true := decide_eq_true hf.rw_eq
  unfold blockio
  dsimp only
  rw [hf.fileblock,hrw]
  by_cases hx : x < maxBytes
  · obtain ⟨o,ho⟩ := slot_of_lt hx sv.ino
    obtain ⟨out,fs₁,sv₁,hrun,hw,hmap⟩ := @bmap_write cur lost d x fs node sv hs hk _ o ho
    rw [hrun,ok_bind]
    rcases hmap with ⟨rfl,-⟩ | ⟨b,rfl,hb⟩
    · refine ⟨some .enospc,fs₁,sv₁,0,?_,hw,.refuse (.inl rfl)⟩
      rw [hf.advance_zero]
    · have hnz := hw.sound.held_ne_zero hb
      have hreach := hw.sound.held_reaches hb
      have hbig : uio.resid ≥ blocksize := hlen
      have hleg : (Uio.aim uio (b * 512)).legal cur := hf.legal
      dsimp only
      rw [if_neg hnz,assert_of (decide_eq_true hbig),ok_bind,diskoff_eq hreach.small]
      rcases rwblock_write hreach hleg hf.rw_eq rfl rfl (Nat.le_trans hlen hf.room) with
        hio | ⟨hnr,hio⟩
      · have hdat := hf.fills_block hw.sound (put_apply node sv₁) (hw.ino ▸ ho) hb hlen halign
        refine ⟨none,_,sv₁,512,?_,hw.trans hdat (Nat.le_refl _) (Nat.le_add_right _ _),
          .done fun _ => ?_⟩
        · rw [← restore_advance uio (b * 512)]
          change (rwblock cur fs₁ (Uio.aim uio (b * 512)) >>= _) = _
          rw [hio,ok_bind]
          rfl
        · unfold maxBytes at hx ⊢
          omega
      · refine ⟨some .efault,fs₁,sv₁,0,?_,hw,.refuse (.inr (.inr ⟨rfl,hnr⟩))⟩
        rw [hf.advance_zero]
        change (rwblock cur fs₁ (Uio.aim uio (b * 512)) >>= _) = _
        rw [hio,ok_bind]
        have hsame := restore_aim hf.toAt (b * 512)
        exact congrArg (fun u => Except.ok (some Errno.efault, fs₁, sv₁, u)) hsame
  · refine ⟨some .einval,fs,sv,0,?_,.refl hs hk,
      .refuse (.inr (.inl ⟨rfl,Nat.le_of_not_lt hx⟩))⟩
    rw [bmap_past cur fs sv hx,ok_bind,hf.advance_zero]

structure WriteStage (cur : Curthread) (lost : Nat → Prop) (d : Nat → Byte) (x : Nat) (fs : Fs)
    (node : Nodes) (sv : Sv) (uio : Uio) (y : Nat) (fs' : Fs) (sv' : Sv) (uio' : Uio) : Prop where
  writes : Writes lost d x y fs node sv fs' sv'
  feeds : Feeds cur d y uio'
  moved : ∃ c, c ≤ uio.resid ∧ y = x + c ∧ uio' = uio.advance c

structure FillStage (cur : Curthread) (lost : Nat → Prop) (d : Nat → Byte) (x : Nat) (fs : Fs)
    (node : Nodes) (sv : Sv) (uio : Uio) (y : Nat) (fs' : Fs) (sv' : Sv) (uio' : Uio) : Prop
    extends WriteStage cur lost d x fs node sv uio y fs' sv' uio' where
  fills : Fills lost d x y fs node sv fs' sv'

theorem FillStage.next {y c : Nat} {fs₁ fs₂ : Fs} {sv₁ sv₂ : Sv} {uio₁ : Uio} {len : Nat}
    {why : Nat → Errno → Prop} {result : Option Errno} (hf : Feeds cur d x uio)
    (h : FillStage cur lost d x fs node sv uio y fs₁ sv₁ uio₁)
    (hw : Fills lost d y (y + c) fs₁ (node.put sv₁) sv₁ fs₂ sv₂)
    (hm : Moved why y len result c) (hlen : len ≤ uio₁.resid) :
    FillStage cur lost d x fs node sv uio (y + c) fs₂ sv₂ (uio₁.advance c) := by
  obtain ⟨c₁,hc₁,rfl,rfl⟩ := h.moved
  have hle := hm.le
  have hlow := hm.low h.feeds.low
  have hres := hf.resid_advance hc₁
  rw [hres] at hlen
  have hall := h.fills.trans hw (Nat.le_add_right _ _) (Nat.le_add_right _ _)
  refine ⟨⟨hall.toWrites,h.feeds.advance (by omega) hlow,c₁ + c,by omega,Nat.add_assoc ..,?_⟩,
    hall⟩
  exact Uio.advance_advance hf.toAt (by omega) hlow

theorem write_cuts (hf : Feeds cur d x uio) :
    Cuts cur (Refused cur uio) (x + uio.resid)
      (FillStage cur lost d x fs node sv uio) := by
  have hsame {y : Nat} {fs' : Fs} {sv' : Sv} {uio' : Uio}
      (h : FillStage cur lost d x fs node sv uio y fs' sv' uio') :
      Refused cur uio' = Refused cur uio := by
    obtain ⟨c,-,-,rfl⟩ := h.moved
    rfl
  refine ⟨fun y fs' sv' uio' h => ?_,fun y fs' sv' uio' len h hlen hfit => ?_,
    fun y fs' sv' uio' h hlen halign => ?_⟩
  · refine ⟨h.feeds.offset,h.feeds.low,?_⟩
    obtain ⟨c,hc,rfl,rfl⟩ := h.moved
    rw [hf.resid_advance hc]
    omega
  · obtain ⟨result,fs₂,sv₂,c,hrun,hw,hm,-⟩ :=
      partialio_write h.writes.sound (put_apply node sv') h.feeds hlen hfit
    exact ⟨result,fs₂,sv₂,_,c,hrun,h.next hf hw hm hlen,hsame h ▸ hm⟩
  · obtain ⟨result,fs₂,sv₂,c,hrun,hw,hm⟩ :=
      blockio_write h.writes.sound (put_apply node sv') h.feeds hlen halign
    exact ⟨result,fs₂,sv₂,_,c,hrun,h.next hf hw hm hlen,hsame h ▸ hm⟩

include hs hk hf in
theorem ioBody_write :
    ∃ result fs' sv' c, ioBody cur fs sv uio = .ok (result, fs', sv', uio.advance c) ∧
      Fills lost d x (x + c) fs node sv fs' sv' ∧
      Moved (Refused cur uio) x uio.resid result c := by
  have hstart : FillStage cur lost d x fs node sv uio x fs sv uio :=
    ⟨⟨.refl hs hk,hf,0,Nat.zero_le _,rfl,hf.advance_zero.symm⟩,.refl hs hk⟩
  obtain ⟨result,fs',sv',uio',c,hrun,hJ,hm⟩ := (write_cuts hf).ioBody hstart
  obtain ⟨c',-,hc,rfl⟩ := hJ.moved
  obtain rfl : c' = c := by omega
  exact ⟨result,fs',sv',c',hrun,hJ.fills,hm⟩

def Sv.grow (sv : Sv) (pos : Int) : Sv :=
  if pos > offT sv.inode.size then sv.resize (u32 pos) else sv

theorem Writes.grow {lo hi : Nat} {fs' : Fs} {sv' : Sv} (h : Writes lost d lo hi fs node sv fs' sv')
    (pos : Int) : Edits lost fs node sv fs' (sv'.grow pos) := by
  unfold Sv.grow
  split
  · exact h.toEdits.trans (edits_resize h.sound (put_apply node sv') _)
  · exact h.toEdits

theorem grow_size (hsize : sv.inode.size < 2 ^ 31) (hx : x < 2 ^ 31) :
    (sv.grow x).inode.size = max sv.inode.size x := by
  have hoff : offT sv.inode.size = sv.inode.size := offT_of_lt (by omega) (by omega)
  unfold Sv.grow
  rw [hoff]
  split
  · dsimp only [Sv.resize]
    rw [u32_of_nat (by omega)]
    omega
  · omega

theorem grow_eq_self (hsize : sv.inode.size < 2 ^ 31) (hx : x ≤ sv.inode.size) :
    sv.grow x = sv := by
  have hoff : offT sv.inode.size = sv.inode.size := offT_of_lt (by omega) (by omega)
  unfold Sv.grow
  rw [hoff,if_neg (by omega)]

theorem held_grow (disk : Nat → Block) (pos : Int) :
    held disk (node.put (sv.grow pos)) = held disk (node.put sv) := by
  unfold Sv.grow
  split
  · exact @held_put_put node (sv.resize (u32 pos)) sv rfl rfl rfl disk
  · rfl

theorem fileByte_grow (disk : Nat → Block) (pos : Int) (k : Nat) :
    fileByte disk (node.put (sv.grow pos)) k = fileByte disk (node.put sv) k := by
  unfold Sv.grow
  split
  · have h := @fileByte_put node (sv.resize (u32 pos)) sv rfl rfl rfl disk k
    exact h
  · rfl

section
variable {W : Type} [Device W] {w w' : W} {sv' : Sv} {uio' : Uio} {result : Option Errno}

theorem ioClip_write (sv : Sv) (hrw : uio.rw = .write) : ioClip sv uio = .ok (some (0, uio)) := by
  unfold ioClip
  rw [hrw]

theorem io_grows {y : Nat} (hrw : uio.rw = .write) (h : uio'.At cur .write y)
    (hbody : ioBody cur w sv uio = .ok (result, w', sv', uio')) :
    io cur w sv uio = .ok (result, w', sv'.grow y, uio') := by
  have hsame : { uio' with resid := u32 (uio'.resid + (0 : Nat)) } = uio' := by
    have hres : u32 (uio'.resid + (0 : Nat)) = uio'.resid := u32_of_nat h.word
    rw [hres]
  unfold io
  rw [ioClip_write sv hrw,ok_bind]
  dsimp only
  rw [hbody,ok_bind]
  rw [hsame,h.rw_eq,h.offset]
  unfold Sv.grow Sv.resize
  simp only [true_and]

end

theorem io_of_write {result : Option Errno} {fs' : Fs} {sv' : Sv} {c : Nat}
    (hf : Feeds cur d x uio) (hm : Moved (Refused cur uio) x uio.resid result c)
    (hrun : ioBody cur fs sv uio = .ok (result, fs', sv', uio.advance c)) :
    io cur fs sv uio = .ok (result, fs', sv'.grow ((x + c : Nat) : Int), uio.advance c) :=
  io_grows hf.rw_eq (hf.toAt.advance hm.le (hm.low hf.low)) hrun

include hs hk hf in
theorem io_write :
    ∃ result fs' sv' c, io cur fs sv uio =
        .ok (result, fs', sv'.grow ((x + c : Nat) : Int), uio.advance c) ∧
      Fills lost d x (x + c) fs node sv fs' sv' ∧
      Moved (Refused cur uio) x uio.resid result c := by
  obtain ⟨result,fs',sv',c,hrun,hw,hm⟩ := @ioBody_write cur lost d x fs node sv uio hs hk hf
  exact ⟨result,fs',sv',c,io_of_write hf hm hrun,hw,hm⟩

theorem ioBody_single {result : Option Errno} {fs' : Fs} {sv' : Sv} {uio' : Uio}
    (h : uio.At cur rw x) (hpos : 0 < uio.resid) (hlt : uio.resid < 512)
    (hfit : x % 512 + uio.resid ≤ 512)
    (hrun : partialio cur fs sv uio (x % 512) uio.resid = .ok (result, fs', sv', uio'))
    (hend : result = none → uio'.resid = 0) :
    ioBody cur fs sv uio = .ok (result, fs', sv', uio') := by
  unfold ioBody
  dsimp only
  rw [h.blkoff]
  by_cases hz : x % 512 = 0
  · have hblocks : uio.resid / blocksize = 0 := Nat.div_eq_of_lt hlt
    rw [hz] at hrun
    rw [if_neg (not_not.mpr hz),ioTail,if_neg (by omega),assert_of (decide_eq_true (h.aligned hz)),
      ok_bind,hblocks,ioBlocks,ok_bind]
    dsimp only
    have hshort : uio.resid < blocksize := hlt
    rw [assert_of (decide_eq_true hshort),ok_bind,if_pos hpos,hrun]
  · have hmin : min (512 - x % 512) uio.resid = uio.resid := by omega
    rw [if_pos hz,blkrest_eq,hmin,hrun,ok_bind]
    cases result with
    | some e => rfl
    | none =>
      dsimp only
      rw [ioTail,if_pos (hend rfl)]

include hs hk hf in
theorem io_write_single (hpos : 0 < uio.resid) (hlt : uio.resid < 512)
    (hfit : x % 512 + uio.resid ≤ 512) :
    ∃ result fs' sv' c, io cur fs sv uio =
        .ok (result, fs', sv'.grow ((x + c : Nat) : Int), uio.advance c) ∧
      Fills lost d x (x + c) fs node sv fs' sv' ∧
      Moved (Refused cur uio) x uio.resid result c ∧
      ∀ e, result = some e →
        c = 0 ∧ (e = .enospc → diskBlock fs.disk node sv.ino (x / 512) = none) := by
  obtain ⟨result,fs',sv',c,hrun,hw,hm,hfull⟩ :=
    partialio_write hs hk hf (Nat.le_refl _) hfit
  have hbody := ioBody_single hf.toAt hpos hlt hfit hrun fun hr => by
    rw [hf.resid_advance hm.le,hm.all hr,Nat.sub_self]
  exact ⟨result,fs',sv',c,io_of_write hf hm hbody,hw,hm,hfull⟩

end Write

def Barred (cur : Curthread) (uio : Uio) (x : Nat) (e : Errno) : Prop :=
  e = .einval ∧ maxBytes ≤ x ∨ e = .efault ∧ ¬ uio.ready cur

section Read
variable {cur : Curthread} {lost : Nat → Prop} {x len : Nat} {fs : Fs} {node : Nodes} {sv : Sv}
  {uio : Uio} {o : Owner}

theorem fileByte_of_slot {k fb y : Nat} (hslot : fileSlot k fb = some o) (hy : y / 512 = fb) :
    fileByte fs.disk node k y = (cell fs.disk node o).toMem (y % 512) := by
  unfold fileByte
  rw [hy,hslot]

theorem partialBuf_read (hs : Sound lost fs node) (hrw : uio.rw = .read) :
    partialBuf cur fs uio ((held fs.disk node o).getD 0) = .ok (none, cell fs.disk node o, fs) := by
  unfold partialBuf cell
  cases ho : held fs.disk node o with
  | none =>
    rw [Option.getD_none,if_pos rfl,assert_of (decide_eq_true hrw),ok_bind,
      Ledger.cell_of_none ho]
  | some b =>
    rw [Option.getD_some,if_neg (hs.held_ne_zero ho),rblock_eq (hs.held_reaches ho),
      Ledger.cell_of_some ho]

variable (hs : Sound lost fs node) (hk : node sv.ino = some sv.inode) (h : uio.At cur .read x)

include hs hk h in
theorem partialio_read (hlen : len ≤ uio.resid) (hfit : x % 512 + len ≤ 512) :
    ∃ result c, partialio cur fs sv uio (x % 512) len =
        .ok (result, fs, sv, uio.took (fileByte fs.disk node sv.ino) x c) ∧
      Moved (Barred cur uio) x len result c := by
  have hrw : decide (uio.rw = .write) = false := by
    rw [h.rw_eq]
    rfl
  unfold partialio
  rw [assert_fits hfit,ok_bind]
  dsimp only
  rw [h.fileblock,hrw]
  by_cases hx : x < maxBytes
  · obtain ⟨o,ho⟩ := slot_of_lt hx sv.ino
    have hbytes (i : Nat) (hi : i < len) : (cell fs.disk node o).toMem (x % 512 + i) =
        fileByte fs.disk node sv.ino (x + i) := by
      rw [fileByte_of_slot ho (by omega)]
      congr 1
      omega
    rw [bmap_read hs hk ho,ok_bind]
    dsimp only
    rw [partialBuf_read hs h.rw_eq,ok_bind]
    dsimp only
    rcases h.move_read hlen hbytes with hmv | ⟨hnr,hmv⟩
    · refine ⟨none,len,?_,.done fun _ => ?_⟩
      · have htook : (uio.took (fileByte fs.disk node sv.ino) x len).rw = .read := h.rw_eq
        rw [hmv,ok_bind]
        dsimp only
        rw [htook]
      · unfold maxBytes at hx ⊢
        omega
    · refine ⟨some .efault,0,?_,.refuse (.inr ⟨rfl,hnr⟩)⟩
      rw [hmv,ok_bind,Uio.took_zero h]
  · refine ⟨some .einval,0,?_,.refuse (.inl ⟨rfl,Nat.le_of_not_lt hx⟩)⟩
    rw [bmap_past cur fs sv hx,ok_bind,Uio.took_zero h]

include hs hk h in
theorem blockio_read (hlen : 512 ≤ uio.resid) (halign : x % 512 = 0) :
    ∃ result c, blockio cur fs sv uio =
        .ok (result, fs, sv, uio.took (fileByte fs.disk node sv.ino) x c) ∧
      Moved (Barred cur uio) x 512 result c := by
  have hrw : decide (uio.rw = .write) = false := by
    rw [h.rw_eq]
    rfl
  unfold blockio
  dsimp only
  rw [h.fileblock,hrw]
  by_cases hx : x < maxBytes
  · have hreach : x + 512 ≤ maxBytes := by
      unfold maxBytes at hx ⊢
      omega
    obtain ⟨o,ho⟩ := slot_of_lt hx sv.ino
    have hbytes (i : Nat) (hi : i < 512) : fileByte fs.disk node sv.ino (x + i) =
        (cell fs.disk node o).toMem i := by
      rw [fileByte_of_slot ho (by omega)]
      congr 1
      omega
    rw [bmap_read hs hk ho,ok_bind]
    dsimp only
    cases hb : held fs.disk node o with
    | none =>
      have hzero (i : Nat) (hi : i < 512) : fileByte fs.disk node sv.ino (x + i) = 0 := by
        rw [hbytes i hi,cell,Ledger.cell_of_none hb]
        simp [zeroBlock,Block.toMem]
      have hlow : x + 512 < 2 ^ 31 := Nat.lt_of_le_of_lt hreach (by decide)
      rw [Option.getD_none,if_pos rfl,assert_of (decide_eq_true h.rw_eq),ok_bind]
      rcases Uio.uiomovezeros_read h hlen hlow hzero with hmv | ⟨hnr,c,hc,hmv⟩
      · refine ⟨none,512,?_,.done fun _ => hreach⟩
        rw [blocksize,hmv,ok_bind]
      · refine ⟨some .efault,c,?_,Nat.le_of_lt hc,fun _ => by omega,fun h => (by cases h),
          fun e he => ?_,fun _ _ _ => hc⟩
        · rw [blocksize,hmv,ok_bind]
        · cases he
          exact .inr ⟨rfl,hnr⟩
    | some b =>
      have hdev := hs.held_reaches hb
      have hbig : uio.resid ≥ blocksize := hlen
      have hleg : (Uio.aim uio (b * 512)).legal cur := h.legal
      rw [Option.getD_some,if_neg (hs.held_ne_zero hb),assert_of (decide_eq_true hbig),ok_bind,
        diskoff_eq hdev.small]
      rcases rwblock_read hdev hleg h.rw_eq rfl rfl (Nat.le_trans hlen h.room) with
        hio | ⟨hnr,hio⟩
      · refine ⟨none,512,?_,.done fun _ => hreach⟩
        have hfill : uio.fillAt (fs.disk b).toMem 0 512 =
            uio.fillAt (fileByte fs.disk node sv.ino) x 512 :=
          Uio.fillAt_congr fun i hi => by
            rw [hbytes i hi,cell,Ledger.cell_of_some hb,Nat.zero_add]
        rw [Uio.took,← hfill,← restore_advance _ (b * 512)]
        change (rwblock cur fs (Uio.aim uio (b * 512)) >>= _) = _
        rw [hio,ok_bind]
        rfl
      · refine ⟨some .efault,0,?_,.refuse (.inr ⟨rfl,hnr⟩)⟩
        rw [Uio.took_zero h]
        change (rwblock cur fs (Uio.aim uio (b * 512)) >>= _) = _
        rw [hio,ok_bind]
        have hsame := restore_aim h (b * 512)
        exact congrArg (fun u => Except.ok (some Errno.efault, fs, sv, u)) hsame
  · refine ⟨some .einval,0,?_,.refuse (.inl ⟨rfl,Nat.le_of_not_lt hx⟩)⟩
    rw [bmap_past cur fs sv hx,ok_bind,Uio.took_zero h]

def ReadStage (g : Mem) (x : Nat) (fs : Fs) (sv : Sv) (uio : Uio) (y : Nat) (fs' : Fs) (sv' : Sv)
    (uio' : Uio) : Prop :=
  fs' = fs ∧ sv' = sv ∧ y < 2 ^ 31 ∧ ∃ c, c ≤ uio.resid ∧ y = x + c ∧ uio' = uio.took g x c

theorem ReadStage.next {y n : Nat} {fs' : Fs} {sv' : Sv} {uio' : Uio} (h : uio.At cur .read x)
    (hstage : ReadStage g x fs sv uio y fs' sv' uio') (hn : n ≤ uio'.resid) (hlow : y + n < 2 ^ 31) :
    ReadStage g x fs sv uio (y + n) fs' sv' (uio'.took g y n) := by
  obtain ⟨rfl,rfl,-,c,hc,rfl,rfl⟩ := hstage
  rw [h.resid_took hc] at hn
  refine ⟨rfl,rfl,hlow,c + n,by omega,Nat.add_assoc ..,Uio.took_took h (by omega) hlow⟩

include hs hk h in
theorem read_cuts :
    Cuts cur (Barred cur uio) (x + uio.resid)
      (ReadStage (fileByte fs.disk node sv.ino) x fs sv uio) := by
  refine ⟨?_,?_,?_⟩
  · rintro y fs' sv' uio' ⟨-,-,hlow,c,hc,rfl,rfl⟩
    refine ⟨(h.took hc hlow).offset,hlow,?_⟩
    rw [h.resid_took hc]
    omega
  · intro y fs' sv' uio' len hstage hlen hfit
    obtain ⟨rfl,rfl,hlow,c,hc,rfl,rfl⟩ := id hstage
    obtain ⟨result,c₂,hrun,hm⟩ := partialio_read hs hk (h.took hc hlow) hlen hfit
    exact ⟨result,_,_,_,c₂,hrun,hstage.next h (hm.le.trans hlen) (hm.low hlow),hm⟩
  · intro y fs' sv' uio' hstage hlen halign
    obtain ⟨rfl,rfl,hlow,c,hc,rfl,rfl⟩ := id hstage
    obtain ⟨result,c₂,hrun,hm⟩ := blockio_read hs hk (h.took hc hlow) hlen halign
    exact ⟨result,_,_,_,c₂,hrun,hstage.next h (hm.le.trans hlen) (hm.low hlow),hm⟩

include hs hk h in
theorem ioBody_read :
    ∃ result c, ioBody cur fs sv uio =
        .ok (result, fs, sv, uio.took (fileByte fs.disk node sv.ino) x c) ∧
      Moved (Barred cur uio) x uio.resid result c := by
  have hstart : ReadStage (fileByte fs.disk node sv.ino) x fs sv uio x fs sv uio :=
    ⟨rfl,rfl,h.low,0,Nat.zero_le _,rfl,(Uio.took_zero h).symm⟩
  obtain ⟨result,fs',sv',uio',c,hrun,⟨rfl,rfl,-,c',-,hc,rfl⟩,hm⟩ :=
    (read_cuts hs hk h).ioBody hstart
  obtain rfl : c' = c := by omega
  exact ⟨result,c',hrun,hm⟩

def Uio.limit (uio : Uio) (resid : Nat) : Uio := { uio with resid := resid }

def readLen (sv : Sv) (x resid : Nat) : Nat :=
  if (x : Int) ≥ offT sv.inode.size then 0
  else if offT (x + resid) > offT sv.inode.size then (offT sv.inode.size - x).toNat
  else resid

theorem offT_le {y : Nat} (hy : y < 2 ^ 32 + 2 ^ 31) :
    offT y = y ∨ offT y = (y : Int) - 2 ^ 32 := by
  unfold offT
  rw [Int.bmod_def]
  split <;> omega

theorem ioClip_cases (h : uio.At cur .read x) :
    ioClip sv uio = .ok none ∧ readLen sv x uio.resid = 0 ∨
      ∃ extra, ioClip sv uio = .ok (some (extra, Uio.limit uio (readLen sv x uio.resid))) ∧
        readLen sv x uio.resid + extra = uio.resid := by
  obtain ⟨iovBuf,iovBase,iovLen,offset,resid,segflg,rw,space⟩ := uio
  have hword : resid < 2 ^ 32 := h.word
  have hlow := h.low
  obtain rfl : offset = x := h.offset
  obtain rfl : rw = .read := h.rw_eq
  unfold ioClip readLen
  dsimp only
  generalize offT sv.inode.size = size
  by_cases heof : (x : Int) ≥ size
  · rw [if_pos heof,if_pos heof]
    exact .inl ⟨rfl,rfl⟩
  · rw [if_neg heof,if_neg heof]
    by_cases hclip : offT (x + resid) > size
    · rw [if_pos hclip,if_pos hclip]
      have hend : offT ((x : Int) + resid) = x + resid := by
        rcases offT_le (y := x + resid) (by omega) with heq | heq
        · exact heq
        · rw [Int.natCast_add] at heq
          omega
      rw [hend] at hclip ⊢
      have hextra : u32 ((x : Int) + resid - size) = x + resid - size.toNat := by
        unfold u32
        omega
      have hless : resid > x + resid - size.toNat := by omega
      have hres : u32 ((resid : Int) - (x + resid - size.toNat : Nat)) =
          (size - x).toNat := by
        unfold u32
        omega
      rw [hextra,assert_of (decide_eq_true hless),ok_bind,hres]
      exact .inr ⟨x + resid - size.toNat,rfl,by omega⟩
    · rw [if_neg hclip,if_neg hclip]
      exact .inr ⟨0,rfl,rfl⟩

theorem At.limit {n : Nat} (h : uio.At cur .read x) (hn : n ≤ uio.resid) :
    (Uio.limit uio n).At cur .read x :=
  ⟨h.legal,h.rw_eq,h.offset,Nat.le_trans hn h.room,Nat.lt_of_le_of_lt hn h.word,h.low⟩

theorem limit_took {n c extra : Nat} {g : Mem} (h : uio.At cur .read x) (hn : n + extra = uio.resid)
    (hc : c ≤ n) :
    Uio.limit ((Uio.limit uio n).took g x c)
        (u32 (((Uio.limit uio n).took g x c).resid + extra)) = uio.took g x c := by
  have hword := h.word
  have hres := (At.limit h (Nat.le.intro hn)).resid_took (g := g) hc
  have hres' := h.resid_took (g := g) (m := c) (by omega)
  have hsum : u32 (((Uio.limit uio n).took g x c).resid + extra) = uio.resid - c := by
    rw [hres]
    exact (u32_of_nat (n := n - c + extra) (by omega)).trans (by omega)
  rw [hsum,← hres']
  rfl

theorem io_of_body {uio₁ uio' : Uio} {extra : Nat} {result : Option Errno}
    (hclip : ioClip sv uio = .ok (some (extra, uio₁)))
    (hrun : ioBody cur fs sv uio₁ = .ok (result, fs, sv, uio')) (hrw : uio'.rw = .read) :
    io cur fs sv uio = .ok (result, fs, sv, Uio.limit uio' (u32 (uio'.resid + extra))) := by
  have hne : uio'.rw ≠ .write := by
    rw [hrw]
    decide
  unfold io
  rw [hclip,ok_bind]
  dsimp only
  rw [hrun,ok_bind]
  rw [if_neg fun hw => hne hw.1]
  rfl

theorem io_read_clipped {n extra : Nat} (hs : Sound lost fs node)
    (hk : node sv.ino = some sv.inode) (h : uio.At cur .read x)
    (hclip : ioClip sv uio = .ok (some (extra, Uio.limit uio n))) (hsum : n + extra = uio.resid) :
    ∃ result c, io cur fs sv uio =
        .ok (result, fs, sv, uio.took (fileByte fs.disk node sv.ino) x c) ∧
      Moved (Barred cur uio) x n result c := by
  obtain ⟨result,c,hrun,hm⟩ := ioBody_read hs hk (At.limit h (Nat.le.intro hsum))
  refine ⟨result,c,?_,hm⟩
  rw [io_of_body hclip hrun h.rw_eq,limit_took h hsum hm.le]

include hs hk h in
theorem io_read :
    ∃ result c, io cur fs sv uio =
        .ok (result, fs, sv, uio.took (fileByte fs.disk node sv.ino) x c) ∧
      Moved (Barred cur uio) x (readLen sv x uio.resid) result c := by
  rcases @ioClip_cases cur x sv uio h with ⟨hclip,hz⟩ | ⟨extra,hclip,hsum⟩
  · rw [hz]
    refine ⟨none,0,?_,.done fun h => absurd h (Nat.lt_irrefl 0)⟩
    rw [Uio.took_zero h,io,hclip,ok_bind]
  · exact io_read_clipped hs hk h hclip hsum

end Read

end OS161.Sfs
