import Mathlib.Data.List.TakeWhile
import OS161.Sfs.Sync

namespace OS161.Mksfs

open Function

open Sfs (Super Inode typeDir mapBlock magic bitmapsize bitblocks bitmapsize_eq bitblocks_eq)

inductive Exit where
  | errx (msg : String)
  | assertion (msg : String)
  deriving DecidableEq, Repr

abbrev Tool (α : Type) := Except Exit α

def maxbitblocks : Nat := 32

def diskwrite (disk : Nat → Block) (data : Block) (block : Nat) : Nat → Block :=
  Function.update disk block data

def writesuper (volname : List Byte) (nblocks : Nat) (disk : Nat → Block) : Tool (Nat → Block) :=
  if 32 ≤ volname.length then .error (.errx "Volume name %s too long")
  else .ok (diskwrite disk
    (Super.toBlock ⟨magic, nblocks, fun i => volname.getD i 0, fun _ => 0⟩) 0)

def rootdir : Inode := ⟨0, typeDir, 1, fun _ => 0, 0, fun _ => 0⟩

def writerootdir (disk : Nat → Block) : Nat → Block := diskwrite disk rootdir.toBlock 1

def doallocbit (bitbuf : Nat → Nat) (bit : Nat) : Tool (Nat → Nat) :=
  if Bits.get 8 bitbuf bit then .error (.assertion "(bitbuf[byte] & mask) == 0")
  else .ok (Bits.raise bitbuf (bit / 8) (bit % 8))

def doallocbits : Nat → Nat → (Nat → Nat) → Tool (Nat → Nat)
  | 0, _, bitbuf => .ok bitbuf
  | left + 1, i, bitbuf => do
    let bitbuf ← doallocbit bitbuf i
    doallocbits left (i + 1) bitbuf

def writeblocks (bitbuf : Nat → Nat) : Nat → Nat → (Nat → Block) → Nat → Block
  | 0, _, disk => disk
  | left + 1, i, disk =>
    writeblocks bitbuf left (i + 1) (diskwrite disk (mapBlock bitbuf i) (2 + i))

def writebitmap (fsblocks : Nat) (disk : Nat → Block) : Tool (Nat → Block) :=
  let nbits := bitmapsize fsblocks
  let nblocks := bitblocks fsblocks
  if maxbitblocks < nblocks then
    .error (.errx "Filesystem too large - increase MAXBITBLOCKS and recompile")
  else do
    let bitbuf ← doallocbit (fun _ => 0) 0
    let bitbuf ← doallocbit bitbuf 1
    let bitbuf ← doallocbits nblocks 2 bitbuf
    let bitbuf ← doallocbits (nbits - fsblocks) fsblocks bitbuf
    .ok (writeblocks bitbuf nblocks 0 disk)

def colon : Byte := 58

def slash : Byte := 47

def cutColon (volname : List Byte) : Tool (List Byte) :=
  match volname.dropWhile (· ≠ colon) with
  | [] => .ok volname
  | [_] => .ok (volname.takeWhile (· ≠ colon))
  | _ => .error (.errx "Illegal volume name %s")

def mksfs (volname : List Byte) (size : Nat) (disk : Nat → Block) : Tool (Nat → Block) := do
  let volname ← cutColon volname
  if slash ∈ volname then .error (.errx "Illegal volume name %s")
  else do
    let disk ← writesuper volname size disk
    writebitmap size (writerootdir disk)

section
variable {bitbuf bitbuf' : Nat → Nat} {bit i left : Nat}

structure Sets (s : Nat → Prop) (bitbuf bitbuf' : Nat → Nat) : Prop where
  bits : ∀ k, Bits.get 8 bitbuf' k = true ↔ Bits.get 8 bitbuf k = true ∨ s k
  bytes : (∀ k, bitbuf k < 2 ^ 8) → ∀ k, bitbuf' k < 2 ^ 8

theorem Sets.trans {s t : Nat → Prop} {buf : Nat → Nat} (h : Sets s bitbuf buf)
    (h' : Sets t buf bitbuf') : Sets (fun k => s k ∨ t k) bitbuf bitbuf' :=
  ⟨fun k => by rw [h'.bits,h.bits,or_assoc],fun hb => h'.bytes (h.bytes hb)⟩

theorem doallocbit_sets (h : doallocbit bitbuf bit = .ok bitbuf') :
    Sets (· = bit) bitbuf bitbuf' := by
  unfold doallocbit at h
  split at h
  · cases h
  · cases h
    refine ⟨fun k => ?_,fun hb => Bits.raise_lt hb (Nat.mod_lt _ (by decide))⟩
    rw [Bits.get_raise_index (by decide),Bool.or_eq_true,decide_eq_true_iff]

theorem doallocbits_sets (h : doallocbits left i bitbuf = .ok bitbuf') :
    Sets (fun k => i ≤ k ∧ k < i + left) bitbuf bitbuf' := by
  induction left generalizing i bitbuf with
  | zero =>
    cases h
    exact ⟨fun k => by simp,id⟩
  | succ left ih =>
    obtain ⟨buf,hbit,hrest⟩ := bind_ok h
    have hs := (doallocbit_sets hbit).trans (ih hrest)
    refine ⟨fun k => (hs.bits k).trans (or_congr_right ?_),hs.bytes⟩
    omega

theorem doallocbit_ok (h : Bits.get 8 bitbuf bit = false) :
    ∃ bitbuf', doallocbit bitbuf bit = .ok bitbuf' := by
  unfold doallocbit
  rw [h]
  exact ⟨_,rfl⟩

theorem doallocbits_ok (h : ∀ k, i ≤ k → k < i + left → Bits.get 8 bitbuf k = false) :
    ∃ bitbuf', doallocbits left i bitbuf = .ok bitbuf' := by
  induction left generalizing i bitbuf with
  | zero => exact ⟨_,rfl⟩
  | succ left ih =>
    obtain ⟨buf,hbit⟩ := doallocbit_ok (h i (Nat.le_refl _) (by omega))
    obtain ⟨bitbuf',hrest⟩ := @ih buf (i + 1) fun k hlo hhi => by
      have hk := h k (by omega) (by omega)
      rw [Bool.eq_false_iff,Ne,(doallocbit_sets hbit).bits k]
      rintro (hset | rfl)
      · rw [hset] at hk
        cases hk
      · omega
    rw [doallocbits,hbit]
    exact ⟨bitbuf',hrest⟩

theorem writeblocks_apply (bitbuf : Nat → Nat) (left i : Nat) (disk : Nat → Block) (b : Nat) :
    writeblocks bitbuf left i disk b =
      if 2 + i ≤ b ∧ b < 2 + i + left then mapBlock bitbuf (b - 2) else disk b := by
  induction left generalizing i disk with
  | zero => rw [writeblocks,if_neg (by omega)]
  | succ left ih =>
    rw [writeblocks,ih]
    unfold diskwrite
    rcases eq_or_ne b (2 + i) with rfl | hne
    · rw [if_neg (by omega),update_self,if_pos (by omega),Nat.add_sub_cancel_left]
    · rw [update_of_ne hne]
      exact if_congr (by omega) rfl rfl

end

def Reserved (n k : Nat) : Prop :=
  k = 0 ∨ k = 1 ∨ (2 ≤ k ∧ k < 2 + bitblocks n) ∨ (n ≤ k ∧ k < bitmapsize n)

structure Formatted (n : Nat) (disk : Nat → Block) : Prop where
  super : ∃ volname, disk 0 = Super.toBlock ⟨magic, n, volname, fun _ => 0⟩
  root : disk 1 = rootdir.toBlock
  fits : bitblocks n ≤ maxbitblocks
  bitmap : ∃ bitbuf : Nat → Nat, (∀ k, bitbuf k < 2 ^ 8) ∧
    (∀ k, Bits.get 8 bitbuf k = true ↔ Reserved n k) ∧
    ∀ j < bitblocks n, disk (2 + j) = mapBlock bitbuf j

section
variable {n : Nat} {volname : List Byte} {disk disk' : Nat → Block}

theorem get_zero (k : Nat) : Bits.get 8 (fun _ => 0) k = false := Nat.zero_testBit _

theorem writebitmap_spec (hn : n < 2 ^ 31) (h : writebitmap n disk = .ok disk') :
    bitblocks n ≤ maxbitblocks ∧ ∃ bitbuf : Nat → Nat, (∀ k, bitbuf k < 2 ^ 8) ∧
      (∀ k, Bits.get 8 bitbuf k = true ↔ Reserved n k) ∧
      disk' = writeblocks bitbuf (bitblocks n) 0 disk := by
  unfold writebitmap at h
  dsimp only at h
  split at h
  · cases h
  case isFalse hfits =>
    obtain ⟨buf₀,h₀,h⟩ := bind_ok h
    obtain ⟨buf₁,h₁,h⟩ := bind_ok h
    obtain ⟨buf₂,h₂,h⟩ := bind_ok h
    obtain ⟨buf₃,h₃,h⟩ := bind_ok h
    cases h
    have hs := (((doallocbit_sets h₀).trans (doallocbit_sets h₁)).trans
      (doallocbits_sets h₂)).trans (doallocbits_sets h₃)
    have hsize := bitmapsize_eq hn
    refine ⟨Nat.le_of_not_lt hfits,buf₃,hs.bytes fun _ => by decide,fun k => ?_,rfl⟩
    rw [hs.bits,get_zero]
    unfold Reserved
    simp only [Bool.false_eq_true,false_or]
    omega

theorem mksfs_formatted (hn : n < 2 ^ 31) (h : mksfs volname n disk = .ok disk') :
    Formatted n disk' := by
  obtain ⟨name,-,h⟩ := bind_ok h
  split at h
  · cases h
  · obtain ⟨disk₁,hsuper,h⟩ := bind_ok h
    unfold writesuper at hsuper
    split at hsuper
    · cases hsuper
    · cases hsuper
      obtain ⟨hfits,bitbuf,hbytes,hbits,rfl⟩ := writebitmap_spec hn h
      refine ⟨⟨fun i => name.getD i 0,?_⟩,?_,hfits,bitbuf,hbytes,hbits,fun j hj => ?_⟩
      · rw [writeblocks_apply,if_neg (by omega),writerootdir,diskwrite,
          update_of_ne (by decide),diskwrite,update_self]
      · rw [writeblocks_apply,if_neg (by omega),writerootdir,diskwrite,update_self]
      · rw [writeblocks_apply,if_pos (by omega),Nat.add_sub_cancel_left]

theorem writebitmap_ok (h3 : 3 ≤ n) (hmax : n ≤ 131072) (disk : Nat → Block) :
    ∃ disk', writebitmap n disk = .ok disk' := by
  have hblocks := bitblocks_eq (n := n) (by omega)
  have hfits : ¬ maxbitblocks < bitblocks n := by
    rw [hblocks]
    unfold maxbitblocks
    omega
  have hclear {s : Nat → Prop} {buf buf' : Nat → Nat} (hs : Sets s buf buf') {k : Nat}
      (hk : Bits.get 8 buf k = false) (hout : ¬ s k) : Bits.get 8 buf' k = false := by
    rw [Bool.eq_false_iff,Ne,hs.bits,hk]
    simp [hout]
  obtain ⟨buf₀,h₀⟩ := doallocbit_ok (get_zero 0)
  have hs₀ := doallocbit_sets h₀
  obtain ⟨buf₁,h₁⟩ := doallocbit_ok (hclear hs₀ (get_zero 1) (by decide))
  have hs₁ := hs₀.trans (doallocbit_sets h₁)
  obtain ⟨buf₂,h₂⟩ := @doallocbits_ok buf₁ 2 (bitblocks n) fun k hlo _ =>
    hclear hs₁ (get_zero k) (by omega)
  have hs₂ := hs₁.trans (doallocbits_sets h₂)
  obtain ⟨buf₃,h₃⟩ := @doallocbits_ok buf₂ n (bitmapsize n - n) fun k hlo _ =>
    hclear hs₂ (get_zero k) (by omega)
  unfold writebitmap
  rw [if_neg hfits,h₀,ok_bind,h₁,ok_bind,h₂,ok_bind,h₃,ok_bind]
  exact ⟨_,rfl⟩

theorem mksfs_ok (h3 : 3 ≤ n) (hmax : n ≤ 131072) (hlen : volname.length < 32)
    (hcolon : colon ∉ volname) (hslash : slash ∉ volname) (disk : Nat → Block) :
    ∃ disk', mksfs volname n disk = .ok disk' := by
  have hcut : cutColon volname = .ok volname := by
    have hdrop : volname.dropWhile (· ≠ colon) = [] := by
      refine List.dropWhile_eq_nil_iff.mpr fun x hx => ?_
      exact decide_eq_true fun heq => hcolon (heq ▸ hx)
    unfold cutColon
    rw [hdrop]
  obtain ⟨disk',hbitmap⟩ := writebitmap_ok h3 hmax (writerootdir (diskwrite disk
    (Super.toBlock ⟨magic,n,fun i => volname.getD i 0,fun _ => 0⟩) 0))
  unfold mksfs writesuper
  rw [hcut,ok_bind,if_neg hslash,if_neg (Nat.not_le.mpr hlen),ok_bind]
  exact ⟨disk',hbitmap⟩

end

end OS161.Mksfs
