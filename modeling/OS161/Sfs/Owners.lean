import OS161.Lib.Ledger
import OS161.Sfs.Device

namespace OS161.Sfs

open Function

open Bytes (load32 store32)

inductive Owner where
  | ino (k : Nat)
  | direct (k : Nat) (i : Fin 15)
  | indirect (k : Nat)
  | entry (k : Nat) (j : Fin 128)
  deriving DecidableEq, Repr

abbrev Nodes := Nat → Option Inode

abbrev Nodes.put (node : Nodes) (sv : Sv) : Nodes := Function.update node sv.ino (some sv.inode)

def ref (block : Nat) : Option Nat := if block = 0 then none else some block

def held (disk : Nat → Block) (node : Nodes) : Owner → Option Nat
  | .ino k => (node k).map fun _ => k
  | .direct k i => (node k).bind fun n => ref (n.direct i)
  | .indirect k => (node k).bind fun n => ref n.indirect
  | .entry k j => (node k).bind fun n => (ref n.indirect).bind fun b => ref (idEntry (disk b) j)

def cell (disk : Nat → Block) (node : Nodes) : Owner → Block :=
  Ledger.cell zeroBlock (held disk node) disk

def Fs.marked (fs : Fs) (b : Nat) : Prop := b < fs.nbits ∧ Bits.get 8 fs.freemap b = true

def Fs.bitblocks (fs : Fs) : Nat := (fs.nblocks + 4095) / 4096

def Fs.fixed (fs : Fs) (b : Nat) : Prop :=
  b = 0 ∨ (2 ≤ b ∧ b < 2 + fs.bitblocks) ∨ (fs.nblocks ≤ b ∧ b < fs.nbits)

structure Geometry (fs : Fs) : Prop where
  words : ∀ i, fs.freemap i < 2 ^ 8
  bits : fs.nbits = fs.bitblocks * 4096
  reach : fs.nblocks ≤ fs.dBlocks
  small : fs.nblocks ≤ 2 ^ 22
  super : 0 < fs.nblocks

structure Sound (lost : Nat → Prop) (fs : Fs) (node : Nodes) : Prop extends Geometry fs where
  ledger : Ledger fs.marked (fun b => fs.fixed b ∨ lost b) (held fs.disk node)

section
variable {idbuf : Block} {j j' v : Nat}

@[simp] theorem toMem_zeroBlock (x : Nat) : zeroBlock.toMem x = 0 := by
  simp [zeroBlock,Block.toMem]

theorem idEntry_zeroBlock (j : Nat) : idEntry zeroBlock j = 0 := by
  simp [idEntry,load32]

theorem toMem_ofMem {m : Mem} {x : Nat} (hx : x < 512) : (Block.ofMem m).toMem x = m x := by
  simp [Block.toMem,Block.ofMem,hx]

theorem idEntry_setEntry_self (hj : j < 128) (hv : v < 2 ^ 32) :
    idEntry (setEntry idbuf j v) j = v := by
  unfold idEntry setEntry
  rw [Bytes.load32_congr fun x _ _ => toMem_ofMem (by omega)]
  exact Bytes.load32_store32 hv

theorem idEntry_setEntry_of_ne (hj' : j' < 128) (hne : j' ≠ j) :
    idEntry (setEntry idbuf j v) j' = idEntry idbuf j' := by
  unfold idEntry setEntry
  rw [Bytes.load32_congr fun x _ _ => toMem_ofMem (by omega)]
  exact Bytes.load32_store32_of_disjoint (by omega)

end

section
variable {b c : Nat}

@[simp] theorem ref_zero : ref 0 = none := rfl

theorem ref_eq_some : ref b = some c ↔ b = c ∧ c ≠ 0 := by
  unfold ref
  split <;> grind

theorem ref_of_ne_zero (hb : b ≠ 0) : ref b = some b := if_neg hb

theorem ref_eq_none : ref b = none ↔ b = 0 := by
  unfold ref
  split <;> simp [*]

end

section Held
variable {disk : Nat → Block} {node : Nodes} {k b : Nat} {n : Inode} {o : Owner}

theorem held_direct (hk : node k = some n) (i : Fin 15) :
    held disk node (.direct k i) = ref (n.direct i) := by
  rw [held,hk,Option.bind_some]

theorem held_indirect (hk : node k = some n) : held disk node (.indirect k) = ref n.indirect := by
  rw [held,hk,Option.bind_some]

theorem held_entry (hi : held disk node (.indirect k) = some b) (j : Fin 128) :
    held disk node (.entry k j) = ref (idEntry (disk b) j) := by
  rw [held,Option.bind_eq_some_iff] at hi
  obtain ⟨n,hk,hn⟩ := hi
  rw [held,hk,Option.bind_some,hn,Option.bind_some]

theorem held_entry_none (hi : held disk node (.indirect k) = none) (j : Fin 128) :
    held disk node (.entry k j) = none := by
  rw [held,Option.bind_eq_none_iff] at hi
  rw [held,Option.bind_eq_none_iff]
  intro n hk
  rw [hi n hk,Option.bind_none]

theorem held_update_disk (hb : ∀ k, held disk node (.indirect k) ≠ some b) (data : Block) :
    held (Function.update disk b data) node = held disk node := by
  funext o
  cases o with
  | ino k | direct k i | indirect k => rfl
  | entry k j =>
    have hi : held (update disk b data) node (.indirect k) =
        held disk node (.indirect k) := rfl
    cases hk : held disk node (.indirect k) with
    | none => rw [held_entry_none hk,held_entry_none (hi.trans hk)]
    | some c =>
      have hne : c ≠ b := fun heq => hb k (heq ▸ hk)
      rw [held_entry hk,held_entry (hi.trans hk),update_of_ne hne]

theorem held_set_direct (hk : node k = some n) (i : Fin 15) (b : Nat) :
    held disk (Function.update node k
        (some { n with direct := Function.update n.direct i b })) =
      Function.update (held disk node) (.direct k i) (ref b) := by
  funext o
  rcases eq_or_ne o (.direct k i) with rfl | hne
  · rw [update_self,held,update_self,Option.bind_some]
    exact congrArg ref (update_self ..)
  · rw [update_of_ne hne]
    cases o with
    | ino k' | indirect k' | entry k' j =>
      rcases eq_or_ne k' k with rfl | hk'
      · simp only [held,update_self,hk,Option.map_some,Option.bind_some]
      · simp only [held,update_of_ne hk']
    | direct k' i' =>
      rcases eq_or_ne k' k with rfl | hk'
      · have hi : i' ≠ i := fun heq => hne (heq ▸ rfl)
        simp only [held,update_self,hk,Option.bind_some,update_of_ne hi]
      · simp only [held,update_of_ne hk']

theorem held_set_indirect (hk : node k = some n) (hn : n.indirect = 0)
    (hz : disk b = zeroBlock) :
    held disk (Function.update node k (some { n with indirect := b })) =
      Function.update (held disk node) (.indirect k) (ref b) := by
  funext o
  rcases eq_or_ne o (.indirect k) with rfl | hne
  · rw [update_self,held,update_self,Option.bind_some]
  · rw [update_of_ne hne]
    cases o with
    | ino k' | direct k' i =>
      rcases eq_or_ne k' k with rfl | hk'
      · simp only [held,update_self,hk,Option.map_some,Option.bind_some]
      · simp only [held,update_of_ne hk']
    | indirect k' =>
      have hk' : k' ≠ k := fun heq => hne (heq ▸ rfl)
      simp only [held,update_of_ne hk']
    | entry k' j =>
      rcases eq_or_ne k' k with rfl | hk'
      · simp only [held,update_self,hk,Option.bind_some,hn,ref_zero,Option.bind_none]
        rw [Option.bind_eq_none_iff]
        intro c hc
        rw [(ref_eq_some.mp hc).1.symm,hz,idEntry_zeroBlock,ref_zero]
      · simp only [held,update_of_ne hk']

theorem held_set_entry (hi : held disk node (.indirect k) = some b)
    (hinj : ∀ k', held disk node (.indirect k') = some b → k' = k) (j : Fin 128) {v : Nat}
    (hv : v < 2 ^ 32) :
    held (Function.update disk b (setEntry (disk b) j v)) node =
      Function.update (held disk node) (.entry k j) (ref v) := by
  have hsame (k' : Nat) : held (update disk b (setEntry (disk b) j v)) node
      (.indirect k') = held disk node (.indirect k') := rfl
  funext o
  cases o with
  | ino k' | direct k' i | indirect k' => rfl
  | entry k' j' =>
    cases hk' : held disk node (.indirect k') with
    | none =>
      have hne : Owner.entry k' j' ≠ .entry k j := by
        rintro heq
        cases heq
        rw [hi] at hk'
        cases hk'
      rw [update_of_ne hne,held_entry_none hk',held_entry_none ((hsame k').trans hk')]
    | some c =>
      rw [held_entry ((hsame k').trans hk')]
      rcases eq_or_ne c b with rfl | hc
      · have hkk := hinj k' hk'
        subst hkk
        rw [update_self]
        rcases eq_or_ne j' j with rfl | hj
        · rw [update_self,idEntry_setEntry_self j'.isLt hv]
        · have hne : Owner.entry k' j' ≠ .entry k' j := fun heq => hj (Owner.entry.inj heq).2
          have hval : (j' : Nat) ≠ j := fun heq => hj (Fin.ext heq)
          rw [update_of_ne hne,held_entry hk',idEntry_setEntry_of_ne j'.isLt hval]
      · have hne : Owner.entry k' j' ≠ .entry k j := by
          rintro heq
          cases heq
          rw [hi] at hk'
          exact hc (Option.some.inj hk').symm
        rw [update_of_ne hc,update_of_ne hne,held_entry hk']

theorem held_put_eq {sv : Sv} (hk : node sv.ino = some n)
    (hd : sv.inode.direct = n.direct) (hi : sv.inode.indirect = n.indirect) :
    held disk (node.put sv) = held disk node := by
  funext o
  cases o with
  | ino k | direct k i | indirect k | entry k j =>
    rcases eq_or_ne k sv.ino with rfl | hne
    · simp only [held,update_self,hk,Option.map_some,Option.bind_some,hd,hi]
    · simp only [held,update_of_ne hne]

end Held

section Alloc
variable {cur : Curthread} {lost : Nat → Prop} {fs : Fs} {node : Nodes} {b : Nat}

def Fs.mark (fs : Fs) (b : Nat) : Fs :=
  { fs with freemap := Bits.raise fs.freemap (b / 8) (b % 8) }

def Fs.take (fs : Fs) (b : Nat) : Fs :=
  { fs.mark b with disk := Function.update fs.disk b zeroBlock }

def Fs.drop (fs : Fs) (b : Nat) : Fs :=
  { fs with freemap := Bits.lower 8 fs.freemap (b / 8) (b % 8) }

theorem marked_mark {c : Nat} (hb : b < fs.nbits) :
    (fs.mark b).marked c ↔ fs.marked c ∨ c = b := by
  unfold Fs.marked Fs.mark
  rw [Bits.get_raise_index (by decide),Bool.or_eq_true,decide_eq_true_iff]
  constructor
  · rintro ⟨hc,hm | rfl⟩
    · exact .inl ⟨hc,hm⟩
    · exact .inr rfl
  · rintro (⟨hc,hm⟩ | rfl)
    · exact ⟨hc,.inl hm⟩
    · exact ⟨hb,.inr rfl⟩

theorem marked_drop {c : Nat} : (fs.drop b).marked c ↔ fs.marked c ∧ c ≠ b := by
  unfold Fs.marked Fs.drop
  rw [Bits.get_lower_index (by decide),Bool.and_eq_true,decide_eq_true_iff,and_assoc]

theorem Geometry.fits (hg : Geometry fs) : fs.nblocks ≤ fs.nbits := by
  have h := hg.bits
  unfold Fs.bitblocks at h
  omega

theorem Geometry.mark (hg : Geometry fs) : Geometry (fs.mark b) :=
  ⟨Bits.raise_lt hg.words (Nat.mod_lt _ (by decide)),hg.bits,hg.reach,hg.small,hg.super⟩

theorem Geometry.withDisk (hg : Geometry fs) (disk : Nat → Block) :
    Geometry { fs with disk := disk } :=
  ⟨hg.words,hg.bits,hg.reach,hg.small,hg.super⟩

theorem Geometry.take (hg : Geometry fs) : Geometry (fs.take b) := hg.mark.withDisk _

theorem Geometry.drop (hg : Geometry fs) : Geometry (fs.drop b) :=
  ⟨Bits.lower_lt hg.words,hg.bits,hg.reach,hg.small,hg.super⟩

theorem Geometry.reaches (hg : Geometry fs) (hb : b < fs.nblocks) : fs.Reaches b :=
  ⟨Nat.lt_of_lt_of_le hb hg.small,Nat.lt_of_lt_of_le hb hg.reach⟩

theorem Sound.fixed_marked (hs : Sound lost fs node) (hb : fs.fixed b) : fs.marked b :=
  (hs.ledger.used_iff b).mpr (.inl (.inl hb))

theorem Sound.ne_zero (hs : Sound lost fs node) (hb : ¬ fs.marked b) : b ≠ 0 := by
  rintro rfl
  exact hb (hs.fixed_marked (.inl rfl))

section Held
variable {o : Owner} (hs : Sound lost fs node) (ho : held fs.disk node o = some b)
include hs ho

theorem Sound.held_marked : fs.marked b := hs.ledger.owned ho

theorem Sound.held_not_fixed : ¬ fs.fixed b := fun hf => hs.ledger.apart o b ho (.inl hf)

theorem Sound.held_lt : b < fs.nblocks := by
  by_contra hge
  exact hs.held_not_fixed ho (.inr (.inr ⟨Nat.le_of_not_lt hge,(hs.held_marked ho).1⟩))

theorem Sound.held_ne_zero : b ≠ 0 := by
  rintro rfl
  exact hs.held_not_fixed ho (.inl rfl)

theorem Sound.held_reaches : fs.Reaches b := hs.reaches (hs.held_lt ho)

end Held

theorem bitmapAlloc_spec (hwords : ∀ i, fs.freemap i < 2 ^ 8)
    (hpad : ∀ b, fs.nbits ≤ b → b < (fs.nbits + 7) / 8 * 8 → Bits.get 8 fs.freemap b = true) :
    (bitmapAlloc fs = .ok (.error .enospc, fs) ∧ ∀ b < fs.nbits, fs.marked b) ∨
      ∃ b, bitmapAlloc fs = .ok (.ok b, fs.mark b) ∧ b < fs.nbits ∧ ¬ fs.marked b ∧
        ∀ c < b, fs.marked c := by
  unfold bitmapAlloc
  rcases Bits.scan_spec hwords ((fs.nbits + 7) / 8) 0 with
    ⟨hfull,hall⟩ | ⟨i,j,hok,hi,hj,hbit,hleast⟩
  · rw [hfull]
    refine .inl ⟨rfl,fun b hb => ⟨hb,?_⟩⟩
    unfold Bits.get
    rw [hall (b / 8) (Nat.zero_le _) (by omega),Nat.testBit_two_pow_sub_one]
    exact decide_eq_true (Nat.mod_lt _ (by decide))
  · have hdiv : (i * 8 + j) / 8 = i := by omega
    have hmod : (i * 8 + j) % 8 = j := by omega
    have hclear : Bits.get 8 fs.freemap (i * 8 + j) = false := by
      unfold Bits.get
      rw [hdiv,hmod,hbit]
    have hlt : i * 8 + j < fs.nbits := by
      by_contra hge
      rw [hpad _ (by omega) (by omega)] at hclear
      cases hclear
    refine .inr ⟨i * 8 + j,?_,hlt,?_,fun c hc => ⟨by omega,hleast c (by omega) hc⟩⟩
    · rw [hok]
      dsimp only [Fs.mark]
      rw [assert_of (decide_eq_true hlt),hdiv,hmod]
      rfl
    · unfold Fs.marked
      rw [hclear]
      exact fun h => Bool.false_ne_true h.2

theorem bitmapAlloc_cases (hg : Geometry fs) :
    (bitmapAlloc fs = .ok (.error .enospc, fs) ∧ ∀ b < fs.nbits, fs.marked b) ∨
      ∃ b, bitmapAlloc fs = .ok (.ok b, fs.mark b) ∧ b < fs.nbits ∧ ¬ fs.marked b := by
  have hwhole := hg.bits
  rcases bitmapAlloc_spec hg.words fun b _ _ => by omega with hfull | ⟨b,hok,hlt,hfree,-⟩
  · exact .inl hfull
  · exact .inr ⟨b,hok,hlt,hfree⟩

theorem balloc_cases (hs : Sound lost fs node) :
    (balloc cur fs = .ok (.error .enospc, fs) ∧ ∀ b < fs.nbits, fs.marked b) ∨
      ∃ b, balloc cur fs = .ok (.ok b, fs.take b) ∧ b < fs.nblocks ∧ ¬ fs.marked b := by
  dsimp only [balloc,Device.fs,Device.setFs]
  rcases bitmapAlloc_cases hs.toGeometry with ⟨hfull,hall⟩ | ⟨b,hok,hlt,hfree⟩
  · rw [hfull,ok_bind]
    exact .inl ⟨rfl,hall⟩
  · have hb : b < fs.nblocks := by
      by_contra hge
      exact hfree (hs.fixed_marked (.inr (.inr ⟨Nat.le_of_not_lt hge,hlt⟩)))
    refine .inr ⟨b,?_,hb,hfree⟩
    have hvalid : ¬ b ≥ (fs.mark b).nblocks := Nat.not_le.mpr hb
    have hreach : (fs.mark b).Reaches b := hs.mark.reaches hb
    rw [hok,ok_bind]
    dsimp only
    rw [if_neg hvalid,clearblock,wblock_eq hreach,ok_bind]
    rfl

theorem bfree_eq (hm : fs.marked b) : bfree fs b = .ok (fs.drop b) := by
  unfold bfree bitmapUnmark
  rw [assert_of (decide_eq_true hm.1),assert_of hm.2]
  rfl

theorem bused_eq (hb : b < fs.nblocks) (hm : fs.marked b) : bused fs b = .ok true := by
  unfold bused
  rw [if_neg (Nat.not_le.mpr hb),hm.2]

end Alloc

end OS161.Sfs
