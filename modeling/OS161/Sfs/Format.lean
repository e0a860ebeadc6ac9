import Mathlib.Order.Interval.Finset.Nat
import OS161.Sbin.Mksfs

namespace OS161.Sfs

open Bytes (byteOf)
open Mksfs (Reserved Formatted mksfs)

structure Disk where
  blocks : Nat
  blocksize : Nat
  data : Nat → Block

structure MountMemory where
  sfs : Bool
  vnodes : Bool
  bitmap : Bool

def bitmapCreate (nbits : Nat) : Kern (Nat → Nat) :=
  let words := (nbits + 7) / 8
  if nbits / 8 < words then do
    let ix := words - 1
    let overbits := nbits - ix * 8
    assert (nbits / 8 = words - 1) "nbits / BITS_PER_WORD == words-1"
    assert (0 < overbits ∧ overbits < 8) "overbits > 0 && overbits < BITS_PER_WORD"
    .ok ((List.range' overbits (8 - overbits)).foldl (fun v j => Bits.raise v ix j) fun _ => 0)
  else .ok fun _ => 0

def fillBlock (bitdata : Nat → Nat) (j : Nat) (data : Block) : Nat → Nat := fun i =>
  if h : j * 512 ≤ i ∧ i - j * 512 < 512 then (data ⟨i - j * 512, h.2⟩).toNat else bitdata i

section
variable (cur : Curthread)

def mapioRead (fs : Fs) : Nat → Nat → (Nat → Nat) → Kern (Option Errno × (Nat → Nat))
  | 0, _, bitdata => .ok (none, bitdata)
  | left + 1, j, bitdata => do
    match ← rblock cur fs (2 + j) with
    | (some e, _, _) => .ok (some e, bitdata)
    | (none, data, _) => mapioRead fs left (j + 1) (fillBlock bitdata j data)

def Disk.sfs (dev : Disk) : Fs := ⟨0, fun _ => 0, 0, dev.data, dev.blocks, []⟩

def loadBitmap (dev : Disk) (super : Super) : Kern (Except Errno Mount) := do
  let freemap ← bitmapCreate (bitmapsize super.nblocks)
  match ← mapioRead cur dev.sfs (bitblocks super.nblocks) 0 freemap with
  | (some e, _) => .ok (.error e)
  | (none, freemap) =>
    .ok (.ok {
      fs := ⟨super.nblocks, freemap, bitmapsize super.nblocks, dev.data, dev.blocks, []⟩
      super := super
      superdirty := false
      freemapdirty := false
      same := rfl })

def domount (mem : MountMemory) (dev : Disk) : Kern (Except Errno Mount) :=
  if dev.blocksize ≠ 512 then .ok (.error .enxio)
  else if mem.sfs = false then .ok (.error .enomem)
  else if mem.vnodes = false then .ok (.error .enomem)
  else do
    match ← rblock cur dev.sfs 0 with
    | (some e, _, _) => .ok (.error e)
    | (none, data, _) =>
      let super := Super.ofBlock data
      if super.magic ≠ magic then .ok (.error .einval)
      else
        let super := { super with volname := Function.update super.volname 31 0 }
        if mem.bitmap = false then .ok (.error .enomem) else loadBitmap cur dev super

def ballocs : Nat → Fs → Kern (List Nat × Option Errno × Fs)
  | 0, fs => .ok ([], none, fs)
  | k + 1, fs => do
    match ← balloc cur fs with
    | (.error e, fs) => .ok ([], some e, fs)
    | (.ok diskblock, fs) => do
      let (blocks, result, fs) ← ballocs k fs
      .ok (diskblock :: blocks, result, fs)

end

structure Inode.Words (n : Inode) : Prop where
  size : n.size < 2 ^ 32
  type : n.type < 2 ^ 16
  linkcount : n.linkcount < 2 ^ 16

structure Inode.Wide (n : Inode) : Prop extends n.Words where
  direct : ∀ i, n.direct i < 2 ^ 32
  indirect : n.indirect < 2 ^ 32

theorem Inode.ofBlock_toBlock {n : Inode} (hn : n.Wide) : Inode.ofBlock n.toBlock = n := by
  obtain ⟨size,type,linkcount,direct,indirect,waste⟩ := n
  have hbyte {x : Nat} (hx : x < 512) : (Inode.toBlock ⟨size,type,linkcount,direct,indirect,
      waste⟩).toMem x = Inode.toMem ⟨size,type,linkcount,direct,indirect,waste⟩ x :=
    toMem_ofMem hx
  unfold Inode.ofBlock
  congr 1
  · refine Bytes.load32_of_bytes hn.size fun k hk => ?_
    rw [hbyte (by omega),Nat.zero_add]
    exact if_pos hk
  · refine Bytes.load16_of_bytes hn.type fun k hk => ?_
    rw [hbyte (by omega),Inode.toMem,if_neg (by omega),if_pos (by omega)]
    congr 1
    omega
  · refine Bytes.load16_of_bytes hn.linkcount fun k hk => ?_
    rw [hbyte (by omega),Inode.toMem,if_neg (by omega),if_neg (by omega),if_pos (by omega)]
    congr 1
    omega
  · funext i
    refine Bytes.load32_of_bytes (hn.direct i) fun k hk => ?_
    have hdiv : (8 + 4 * (i : Nat) + k - 8) / 4 = i := by omega
    rw [hbyte (by omega),Inode.toMem,if_neg (by omega),if_neg (by omega),if_neg (by omega),
      dif_pos (by omega)]
    simp only [hdiv,Fin.eta]
    congr 1
    omega
  · refine Bytes.load32_of_bytes hn.indirect fun k hk => ?_
    rw [hbyte (by omega),Inode.toMem,if_neg (by omega),if_neg (by omega),if_neg (by omega),
      dif_neg (by omega),if_pos (by omega)]
    congr 1
    omega
  · funext i
    rw [hbyte (by omega),Inode.toMem,if_neg (by omega),if_neg (by omega),if_neg (by omega),
      dif_neg (by omega),if_neg (by omega),dif_pos (by omega)]
    simp only [Nat.add_sub_cancel_left,Fin.eta]

theorem Super.ofBlock_toBlock {sp : Super} (hm : sp.magic < 2 ^ 32) (hn : sp.nblocks < 2 ^ 32) :
    Super.ofBlock sp.toBlock = sp := by
  obtain ⟨magic,nblocks,volname,reserved⟩ := sp
  have hbyte {x : Nat} (hx : x < 512) : (Super.toBlock ⟨magic,nblocks,volname,reserved⟩).toMem x =
      Super.toMem ⟨magic,nblocks,volname,reserved⟩ x := toMem_ofMem hx
  unfold Super.ofBlock
  congr 1
  · refine Bytes.load32_of_bytes hm fun k hk => ?_
    rw [hbyte (by omega),Nat.zero_add]
    exact if_pos hk
  · refine Bytes.load32_of_bytes hn fun k hk => ?_
    rw [hbyte (by omega),Super.toMem,if_neg (by omega),if_pos (by omega)]
    congr 1
    omega
  · funext i
    rw [hbyte (by omega),Super.toMem,if_neg (by omega),if_neg (by omega),dif_pos (by omega)]
    simp only [Nat.add_sub_cancel_left,Fin.eta]
  · funext i
    rw [hbyte (by omega),Super.toMem,if_neg (by omega),if_neg (by omega),dif_neg (by omega),
      dif_pos (by omega)]
    simp only [Nat.add_sub_cancel_left,Fin.eta]

section
variable {cur : Curthread} {fs : Fs} {bitdata : Nat → Nat} {left j n : Nat}

theorem bitmapCreate_whole (h : n % 8 = 0) : bitmapCreate n = .ok fun _ => 0 := by
  unfold bitmapCreate
  rw [if_neg (by omega)]

theorem mapioRead_eq (hr : ∀ k, j ≤ k → k < j + left → fs.Reaches (2 + k)) :
    ∃ freemap, mapioRead cur fs left j bitdata = .ok (none, freemap) ∧ ∀ i, freemap i =
      if j * 512 ≤ i ∧ i < (j + left) * 512
      then (fs.disk (2 + i / 512) ⟨i % 512, Nat.mod_lt _ (by decide)⟩).toNat else bitdata i := by
  induction left generalizing j bitdata with
  | zero =>
    refine ⟨bitdata,rfl,fun i => ?_⟩
    rw [if_neg (by omega)]
  | succ left ih =>
    obtain ⟨freemap,hrun,hbits⟩ := @ih (fillBlock bitdata j (fs.disk (2 + j))) (j + 1)
      fun k hlo hhi => hr k (by omega) (by omega)
    refine ⟨freemap,?_,fun i => ?_⟩
    · rw [mapioRead,rblock_eq (hr j (Nat.le_refl _) (by omega)),ok_bind]
      exact hrun
    · rw [hbits i]
      unfold fillBlock
      rcases eq_or_ne j (i / 512) with rfl | hne
      · have hoff : i - i / 512 * 512 = i % 512 := by omega
        rw [if_neg (by omega),dif_pos (by omega),if_pos (by omega)]
        simp only [hoff]
      · rw [dif_neg (by omega)]
        exact if_congr (by omega) rfl rfl

theorem get_fill {freemap bitbuf : Nat → Nat} {disk : Nat → Block}
    (hbytes : ∀ k, bitbuf k < 2 ^ 8) (hdisk : ∀ j < left, disk (2 + j) = mapBlock bitbuf j)
    (hfree : ∀ i < left * 512, freemap i =
      (disk (2 + i / 512) ⟨i % 512, Nat.mod_lt _ (by decide)⟩).toNat) {i : Nat}
    (hi : i < left * 4096) : Bits.get 8 freemap i = Bits.get 8 bitbuf i := by
  unfold Bits.get
  have hbyte := hbytes (i / 8)
  rw [hfree (i / 8) (by omega),hdisk _ (by omega)]
  unfold mapBlock
  rw [Nat.div_add_mod']
  congr 1
  simp only [UInt8.toNat_ofNat']
  omega

end

structure MountedAs (n : Nat) (m : Mount) : Prop where
  nblocks : m.super.nblocks = n
  nbits : m.fs.nbits = bitmapsize n
  words : ∀ i, m.fs.freemap i < 2 ^ 8
  freemap : ∀ i < bitmapsize n, Bits.get 8 m.fs.freemap i = true ↔ Reserved n i
  dBlocks : m.fs.dBlocks = n
  root : Inode.ofBlock (m.fs.disk 1) = Mksfs.rootdir

variable {cur : Curthread} {n : Nat} {data : Nat → Block}

variable (cur) in
theorem domount_formatted (h3 : 3 ≤ n) (hn : n < 2 ^ 31) (hf : Formatted n data) :
    ∃ m, domount cur ⟨true, true, true⟩ ⟨n, 512, data⟩ = .ok (.ok m) ∧ MountedAs n m := by
  obtain ⟨⟨volname,hsuper⟩,hroot,hfits,bitbuf,hbytes,hbits,hblocks⟩ := hf
  have hbb := bitblocks_eq hn
  have hsize := bitmapsize_eq hn
  have hmax : bitblocks n ≤ 32 := hfits
  have hreach {b : Nat} (hb : b < n) : (Disk.sfs ⟨n,512,data⟩).Reaches b := ⟨by omega,hb⟩
  have hload : Super.ofBlock (data 0) = ⟨magic,n,volname,fun _ => 0⟩ := by
    rw [hsuper]
    have hm : magic < 2 ^ 32 := by decide
    exact Super.ofBlock_toBlock hm (Nat.lt_trans hn (by decide))
  obtain ⟨freemap,hrun,hfree⟩ := @mapioRead_eq cur (Disk.sfs ⟨n,512,data⟩) (fun _ => 0)
    (bitblocks n) 0 fun k _ hk => hreach (by omega)
  have hdata : (Disk.sfs ⟨n,512,data⟩).disk 0 = data 0 := rfl
  unfold domount
  dsimp only
  rw [if_neg (by decide),if_neg (by decide),if_neg (by decide),rblock_eq (hreach (by omega)),
    ok_bind,hdata]
  dsimp only
  rw [hload,if_neg (not_not.mpr rfl),if_neg (by decide)]
  unfold loadBitmap
  rw [bitmapCreate_whole (by rw [hsize]; omega),ok_bind,hrun,ok_bind]
  refine ⟨_,rfl,rfl,rfl,fun i => ?_,fun i hi => ?_,rfl,?_⟩
  · dsimp only
    rw [hfree i]
    split
    · exact UInt8.toNat_lt _
    · decide
  · rw [← hbits]
    have hget : Bits.get 8 freemap i = Bits.get 8 bitbuf i := by
      refine get_fill hbytes hblocks (fun i hi => ?_) (by omega)
      rw [hfree i,if_pos (by omega)]
      rfl
    rw [hget]
  · dsimp only
    rw [hroot]
    exact Inode.ofBlock_toBlock ⟨⟨by decide,by decide,by decide⟩,fun _ => Nat.two_pow_pos 32,
      by decide⟩

section
variable {lost : Nat → Prop} {fs : Fs} {node : Nodes} {b : Nat}

def Fs.free (fs : Fs) : Finset Nat :=
  (Finset.range fs.nbits).filter fun b => Bits.get 8 fs.freemap b = false

theorem mem_free : b ∈ fs.free ↔ b < fs.nbits ∧ ¬ fs.marked b := by
  unfold Fs.free Fs.marked
  rw [Finset.mem_filter,Finset.mem_range,← Bool.not_eq_true]
  tauto

theorem Sound.take_lost (hs : Sound lost fs node) (hb : b < fs.nblocks) (hfree : ¬ fs.marked b) :
    Sound (fun c => lost c ∨ c = b) (fs.take b) node := by
  refine ⟨hs.take,?_⟩
  have hled := hs.ledger.reserve hfree fun c =>
    (@marked_mark fs b c (Nat.lt_of_lt_of_le hb hs.fits))
  simp only [or_assoc] at hled
  rw [held_take hs hfree]
  exact hled

theorem free_take (hb : b < fs.nbits) : (fs.take b).free = fs.free.erase b := by
  ext c
  have hmark : (fs.take b).marked c ↔ fs.marked c ∨ c = b := marked_mark hb
  rw [Finset.mem_erase,mem_free,mem_free,hmark]
  have hsame : (fs.take b).nbits = fs.nbits := rfl
  rw [hsame]
  tauto

structure Handed (k : Nat) (free : Finset Nat) (blocks : List Nat) (result : Option Errno) : Prop where
  count : blocks.length = min k free.card
  result : result = if k ≤ free.card then none else some .enospc
  nodup : blocks.Nodup
  mem : ∀ b ∈ blocks, b ∈ free

variable (cur) in
theorem ballocs_spec (hs : Sound lost fs node) (k : Nat) :
    ∃ blocks result fs', ballocs cur k fs = .ok (blocks, result, fs') ∧
      Handed k fs.free blocks result := by
  induction k generalizing lost fs with
  | zero =>
    exact ⟨[],none,fs,rfl,by simp,by simp,List.nodup_nil,by simp⟩
  | succ k ih =>
    rw [ballocs]
    rcases balloc_cases hs with ⟨hfull,hall⟩ | ⟨b,hok,hlt,hfree⟩
    · have hempty : fs.free = ∅ := by
        refine Finset.eq_empty_of_forall_notMem fun c hc => ?_
        obtain ⟨hc,hm⟩ := mem_free.mp hc
        exact hm (hall c hc)
      refine ⟨[],some .enospc,fs,?_,?_⟩
      · rw [hfull,ok_bind]
      · rw [hempty]
        exact ⟨by simp,by simp,List.nodup_nil,by simp⟩
    · have hnb : b < fs.nbits := Nat.lt_of_lt_of_le hlt hs.fits
      have hmem : b ∈ fs.free := mem_free.mpr ⟨hnb,hfree⟩
      obtain ⟨blocks,result,fs',hrun,hh⟩ := ih (hs.take_lost hlt hfree)
      rw [free_take hnb] at hh
      have hcard := Finset.card_erase_add_one hmem
      refine ⟨b :: blocks,result,fs',?_,?_,?_,?_,?_⟩
      · rw [hok,ok_bind]
        dsimp only
        rw [hrun]
        rfl
      · rw [List.length_cons,hh.count]
        omega
      · rw [hh.result]
        exact if_congr (by omega) rfl rfl
      · exact List.nodup_cons.mpr ⟨fun hb => (Finset.mem_erase.mp (hh.mem b hb)).1 rfl,hh.nodup⟩
      · intro c hc
        rcases List.mem_cons.mp hc with rfl | hc
        · exact hmem
        · exact Finset.mem_of_mem_erase (hh.mem c hc)

end

theorem MountedAs.sound {m : Mount} (hm : MountedAs n m) (h3 : 3 ≤ n) (hmax : n ≤ 2 ^ 22) :
    Sound (· = 1) m.fs fun _ => none := by
  have hn : m.fs.nblocks = n := m.same.trans hm.nblocks
  have hbb : m.fs.bitblocks = bitblocks n := by
    rw [bitblocks_eq (Nat.lt_of_le_of_lt hmax (by decide))]
    unfold Fs.bitblocks
    rw [hn]
  have hsize := bitmapsize_eq (Nat.lt_of_le_of_lt hmax (by decide : 2 ^ 22 < 2 ^ 31))
  have hblocks := bitblocks_eq (Nat.lt_of_le_of_lt hmax (by decide : 2 ^ 22 < 2 ^ 31))
  have hnone (o : Owner) : held m.fs.disk (fun _ => none) o = none := by
    cases o <;> rfl
  refine ⟨⟨hm.words,?_,?_,?_,?_⟩,fun b => ?_,fun o b ho => ?_,fun o o' b ho _ => ?_⟩
  · rw [hm.nbits,hbb,hsize,hblocks]
  · rw [hn,hm.dBlocks]
  · rwa [hn]
  · rw [hn]
    omega
  · simp only [hnone]
    unfold Fs.marked Fs.fixed
    rw [hm.nbits,hbb,hn]
    by_cases hb : b < bitmapsize n
    · rw [hm.freemap b hb]
      unfold Reserved
      tauto
    · simp only [reduceCtorEq,exists_false,or_false]
      omega
  · rw [hnone] at ho
    cases ho
  · rw [hnone] at ho
    cases ho

theorem MountedAs.free_eq {m : Mount} (hm : MountedAs n m) (hn : n < 2 ^ 31) :
    m.fs.free = Finset.Ico (2 + bitblocks n) n := by
  have hsize := bitmapsize_eq hn
  ext b
  rw [Fs.free,Finset.mem_filter,Finset.mem_range,Finset.mem_Ico,hm.nbits,← Bool.not_eq_true]
  constructor
  · rintro ⟨hb,hclear⟩
    rw [hm.freemap b hb] at hclear
    unfold Reserved at hclear
    omega
  · rintro ⟨hlo,hhi⟩
    have hb : b < bitmapsize n := by omega
    refine ⟨hb,?_⟩
    rw [hm.freemap b hb]
    unfold Reserved
    omega

theorem mksfs_mounts_and_fills {volname : List Byte} {disk disk' : Nat → Block} (h3 : 3 ≤ n)
    (hn : n < 2 ^ 31) (hmk : mksfs volname n disk = .ok disk') :
    ∃ m, domount cur ⟨true, true, true⟩ ⟨n, 512, disk'⟩ = .ok (.ok m) ∧
      m.super.nblocks = n ∧
      (∀ i < bitmapsize n, Bits.get 8 m.fs.freemap i = true ↔
        i = 0 ∨ i = 1 ∨ (2 ≤ i ∧ i < 2 + bitblocks n) ∨ (n ≤ i ∧ i < bitmapsize n)) ∧
      Inode.ofBlock (m.fs.disk 1) = ⟨0, typeDir, 1, fun _ => 0, 0, fun _ => 0⟩ ∧
      ∀ k, ∃ blocks result fs', ballocs cur k m.fs = .ok (blocks, result, fs') ∧
        blocks.length = min k (n - 2 - bitblocks n) ∧
        result = (if k ≤ n - 2 - bitblocks n then none else some .enospc) ∧
        blocks.Nodup ∧ ∀ b ∈ blocks, 2 + bitblocks n ≤ b ∧ b < n := by
  have hf := Mksfs.mksfs_formatted hn hmk
  obtain ⟨m,hmount,hm⟩ := domount_formatted cur h3 hn hf
  have hfits : bitblocks n ≤ 32 := hf.fits
  rw [bitblocks_eq hn] at hfits
  refine ⟨m,hmount,hm.nblocks,hm.freemap,hm.root,fun k => ?_⟩
  obtain ⟨blocks,result,fs',hrun,hh⟩ := ballocs_spec cur (hm.sound h3 (by omega)) k
  rw [hm.free_eq hn] at hh
  have hcard : (Finset.Ico (2 + bitblocks n) n).card = n - 2 - bitblocks n := by
    rw [Nat.card_Ico]
    omega
  refine ⟨blocks,result,fs',hrun,?_,?_,hh.nodup,fun b hb => Finset.mem_Ico.mp (hh.mem b hb)⟩
  · rw [hh.count,hcard]
  · rw [hh.result,hcard]

theorem mksfs_mounts_five_blocks :
    ∃ disk' m, mksfs [100, 105, 115, 107] 5 (fun _ => zeroBlock) = .ok disk' ∧
      domount ⟨none, fun _ _ => none⟩ ⟨true, true, true⟩ ⟨5, 512, disk'⟩ = .ok (.ok m) ∧
      m.super.nblocks = 5 := by
  obtain ⟨disk',hmk⟩ := @Mksfs.mksfs_ok 5 [100,105,115,107] (by decide) (by decide) (by decide)
    (by decide) (by decide) fun _ => zeroBlock
  obtain ⟨m,hmount,hn,-⟩ := @mksfs_mounts_and_fills ⟨none,fun _ _ => none⟩ 5 _ _ _ (by decide)
    (by decide) hmk
  exact ⟨disk',m,hmk,hmount,hn⟩

end OS161.Sfs
