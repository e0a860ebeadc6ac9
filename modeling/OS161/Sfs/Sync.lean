import OS161.Sfs.Directory
import OS161.Sfs.Truncate

def Keyed.Apart {R K : Type} (key : R → K) (l : List R) : Prop := (l.map key).Nodup

namespace OS161.Sfs

open Function

open Bytes (load32 byteOf)

def magic : Nat := 0xabadf001

def blockbits : Nat := 512 * 8

def roundup (a b : Nat) : Nat := u32 (u32 ((a + b : Int) - 1) / b * b : Nat)

def bitmapsize (nblocks : Nat) : Nat := roundup nblocks blockbits

def bitblocks (nblocks : Nat) : Nat := bitmapsize nblocks / blockbits

section
variable {n : Nat}

theorem bitmapsize_eq (hn : n < 2 ^ 31) : bitmapsize n = (n + 4095) / 4096 * 4096 := by
  have hsum : u32 (((n : Int) + blockbits) - 1) = n + 4095 := by
    unfold u32 blockbits
    omega
  unfold bitmapsize roundup
  rw [hsum]
  exact u32_of_nat (n := (n + 4095) / 4096 * 4096) (by omega)

theorem bitblocks_eq (hn : n < 2 ^ 31) : bitblocks n = (n + 4095) / 4096 := by
  unfold bitblocks
  rw [bitmapsize_eq hn]
  exact Nat.mul_div_cancel _ (by decide)

end

structure Super where
  magic : Nat
  nblocks : Nat
  volname : Fin 32 → Byte
  reserved : Fin 472 → Byte

namespace Super

def toMem (sp : Super) : Mem := fun k =>
  if k < 4 then byteOf sp.magic (3 - k)
  else if k < 8 then byteOf sp.nblocks (7 - k)
  else if h : k - 8 < 32 then sp.volname ⟨k - 8, h⟩
  else if h : k - 40 < 472 then sp.reserved ⟨k - 40, h⟩
  else 0

def toBlock (sp : Super) : Block := Block.ofMem sp.toMem

def ofBlock (b : Block) : Super where
  magic := load32 b.toMem 0
  nblocks := load32 b.toMem 4
  volname i := b.toMem (8 + i)
  reserved i := b.toMem (40 + i)

end Super

structure Mount where
  fs : Fs
  super : Super
  superdirty : Bool
  freemapdirty : Bool
  same : fs.nblocks = super.nblocks

def Mount.bitblocks (m : Mount) : Nat := Sfs.bitblocks m.super.nblocks

def mapBlock (freemap : Nat → Nat) (j : Nat) : Block := fun i =>
  UInt8.ofNat (freemap (j * 512 + i))

abbrev Answers := Nat → Kern (Option Errno)

structure Media where
  disk : Nat → Block
  writes : Nat

-- What sync is told of a write. A write that is answered with success has been made, which
-- sfsWblock itself does not guarantee: it reports success when the retry after an EIO has no
-- bytes left to move.
def Media.store (wr : Answers) (md : Media) (data : Block) (block : Nat) :
    Kern (Option Errno × Media) := do
  match ← wr md.writes with
  | some e => .ok (some e, { md with writes := md.writes + 1 })
  | none => .ok (none, ⟨Function.update md.disk block data, md.writes + 1⟩)

section
variable (wr : Answers)

def fsync (md : Media) (sv : Sv) : Kern (Option Errno × Media × Sv) :=
  if sv.dirty then do
    match ← md.store wr sv.inode.toBlock sv.ino with
    | (some e, md) => .ok (some e, md, sv)
    | (none, md) => .ok (none, md, { sv with dirty := false })
  else .ok (none, md, sv)

def syncVnodes : List Sv → Media → Kern (List Sv × Media)
  | [], md => .ok ([], md)
  | sv :: rest, md => do
    let (_, md, sv) ← fsync wr md sv
    let (rest, md) ← syncVnodes rest md
    .ok (sv :: rest, md)

def mapioWrite (freemap : Nat → Nat) : Nat → Nat → Media → Kern (Option Errno × Media)
  | 0, _, md => .ok (none, md)
  | left + 1, j, md => do
    match ← md.store wr (mapBlock freemap j) (2 + j) with
    | (some e, md) => .ok (some e, md)
    | (none, md) => mapioWrite freemap left (j + 1) md

def syncFreemap (m : Mount) (md : Media) : Kern (Option Errno × Media × Bool) :=
  if m.freemapdirty then do
    match ← mapioWrite wr m.fs.freemap m.bitblocks 0 md with
    | (some e, md) => .ok (some e, md, true)
    | (none, md) => .ok (none, md, false)
  else .ok (none, md, false)

def syncSuper (m : Mount) (md : Media) : Kern (Option Errno × Media × Bool) :=
  if m.superdirty then do
    match ← md.store wr m.super.toBlock 0 with
    | (some e, md) => .ok (some e, md, true)
    | (none, md) => .ok (none, md, false)
  else .ok (none, md, false)

def sync (m : Mount) : Kern (Option Errno × Mount) := do
  let (vnodes, md) ← syncVnodes wr m.fs.vnodes ⟨m.fs.disk, 0⟩
  match ← syncFreemap wr m md with
  | (some e, md, freemapdirty) =>
    .ok (some e, { m with
      fs := { m.fs with disk := md.disk, vnodes := vnodes }
      freemapdirty := freemapdirty })
  | (none, md, freemapdirty) =>
    let (result, md, superdirty) ← syncSuper wr m md
    .ok (result, { m with
      fs := { m.fs with disk := md.disk, vnodes := vnodes }
      freemapdirty := freemapdirty
      superdirty := superdirty })

end

structure Current (m : Mount) : Prop where
  vnodes : ∀ sv ∈ m.fs.vnodes, sv.dirty = false ∧ m.fs.disk sv.ino = sv.inode.toBlock
  freemap : m.freemapdirty = false ∧
    ∀ j < m.bitblocks, m.fs.disk (2 + j) = mapBlock m.fs.freemap j
  super : m.superdirty = false ∧ m.fs.disk 0 = m.super.toBlock

structure Truthful (m : Mount) : Prop where
  vnodes : ∀ sv ∈ m.fs.vnodes, sv.dirty = false → m.fs.disk sv.ino = sv.inode.toBlock
  freemap : m.freemapdirty = false →
    ∀ j < m.bitblocks, m.fs.disk (2 + j) = mapBlock m.fs.freemap j
  super : m.superdirty = false → m.fs.disk 0 = m.super.toBlock

structure Spread (m : Mount) : Prop where
  apart : Keyed.Apart Sv.ino m.fs.vnodes
  inside : ∀ sv ∈ m.fs.vnodes, sv.ino ≠ 0 ∧ ¬ (2 ≤ sv.ino ∧ sv.ino < 2 + m.bitblocks)

def dirtyCount (l : List Sv) : Nat := l.countP (·.dirty)

def Mount.mapWrites (m : Mount) : Nat := if m.freemapdirty then m.bitblocks else 0

structure Returns (wr : Answers) (m : Mount) : Prop where
  vnodes : ∀ i < dirtyCount m.fs.vnodes, ∃ result, wr i = .ok result
  freemap : ∀ i < m.mapWrites, wr (dirtyCount m.fs.vnodes + i) = .ok none
  super : m.superdirty = true → wr (dirtyCount m.fs.vnodes + m.mapWrites) = .ok none

section Vnodes
variable {wr : Answers} {md md' : Media} {sv sv' : Sv} {l l' : List Sv} {data : Block} {b : Nat}
  {result : Option Errno}

theorem store_cases (h : md.store wr data b = .ok (result, md')) :
    wr md.writes = .ok result ∧
      md' = ⟨if result = none then Function.update md.disk b data else md.disk, md.writes + 1⟩ := by
  obtain ⟨answer,hwr,hrest⟩ := bind_ok h
  cases answer with
  | none | some e =>
    cases hrest
    exact ⟨hwr,rfl⟩

theorem store_returns (h : wr md.writes = .ok result) :
    ∃ md', md.store wr data b = .ok (result, md') := by
  unfold Media.store
  rw [h]
  cases result with
  | none | some e => exact ⟨_,rfl⟩

theorem dirtyCount_cons (sv : Sv) (l : List Sv) :
    dirtyCount (sv :: l) = dirtyCount l + if sv.dirty then 1 else 0 := by
  unfold dirtyCount
  rw [List.countP_cons]

structure Flushed (wr : Answers) (l : List Sv) (md : Media) (l' : List Sv) (md' : Media) : Prop where
  inos : l'.map Sv.ino = l.map Sv.ino
  writes : md'.writes = md.writes + dirtyCount l
  frame : ∀ b, b ∉ l.map Sv.ino → md'.disk b = md.disk b
  current : (∀ sv ∈ l', sv.dirty = false ∧ md'.disk sv.ino = sv.inode.toBlock) ↔
    (∀ sv ∈ l, sv.dirty = false → md.disk sv.ino = sv.inode.toBlock) ∧
      ∀ i < dirtyCount l, wr (md.writes + i) = .ok none

theorem fsync_flushed (h : fsync wr md sv = .ok (result, md', sv')) :
    Flushed wr [sv] md [sv'] md' := by
  unfold fsync at h
  have hcount := dirtyCount_cons sv []
  split at h
  case isTrue hdirty =>
    rw [if_pos hdirty,show dirtyCount [] = 0 from rfl,Nat.zero_add] at hcount
    obtain ⟨⟨_ | e,md₁⟩,hw,hrest⟩ := bind_ok h
    · obtain ⟨hanswer,rfl⟩ := store_cases hw
      cases hrest
      refine ⟨rfl,by rw [hcount],fun b hb => ?_,?_⟩
      · have hne : b ≠ sv.ino := by simpa using hb
        exact update_of_ne hne ..
      · rw [hcount]
        simp [hdirty,hanswer]
    · obtain ⟨hanswer,rfl⟩ := store_cases hw
      cases hrest
      refine ⟨rfl,by rw [hcount],fun b hb => rfl,?_⟩
      rw [hcount]
      simp [hdirty,hanswer]
  case isFalse hclean =>
    cases h
    refine ⟨rfl,by rw [hcount,if_neg hclean]; rfl,fun _ _ => rfl,?_⟩
    simp [hclean,dirtyCount]

theorem dirtyCount_split (sv : Sv) (l : List Sv) :
    dirtyCount (sv :: l) = dirtyCount [sv] + dirtyCount l := by
  rw [dirtyCount_cons,dirtyCount_cons,show dirtyCount [] = 0 from rfl]
  omega

theorem forall_lt_add {P : Nat → Prop} (a b : Nat) :
    (∀ i < a + b, P i) ↔ (∀ i < a, P i) ∧ ∀ i < b, P (a + i) := by
  refine ⟨fun h => ⟨fun i hi => h i (by omega),fun i hi => h _ (by omega)⟩,fun ⟨h,h'⟩ i hi => ?_⟩
  by_cases hlt : i < a
  · exact h i hlt
  · have hrest := h' (i - a) (by omega)
    rwa [Nat.add_sub_cancel' (by omega)] at hrest

theorem Flushed.cons {md₁ : Media} (hf : Flushed wr [sv] md [sv'] md₁)
    (hr : Flushed wr l md₁ l' md') (hne : ∀ s ∈ l, sv.ino ≠ s.ino) :
    Flushed wr (sv :: l) md (sv' :: l') md' := by
  have hino : sv'.ino = sv.ino := by simpa using hf.inos
  have hhead : md'.disk sv.ino = md₁.disk sv.ino := by
    refine hr.frame _ fun hmem => ?_
    obtain ⟨s,hs,heq⟩ := List.mem_map.mp hmem
    exact hne s hs heq.symm
  have htail {s : Sv} (hs : s ∈ l) : md₁.disk s.ino = md.disk s.ino := by
    refine hf.frame _ fun hmem => hne s hs ?_
    exact (List.mem_singleton.mp hmem).symm
  refine ⟨?_,?_,fun b hb => ?_,?_⟩
  · rw [List.map_cons,List.map_cons,hino,hr.inos]
  · rw [hr.writes,hf.writes,dirtyCount_split sv l]
    omega
  · rw [List.map_cons,List.mem_cons,not_or] at hb
    rw [hr.frame b hb.2,hf.frame b (by simpa using hb.1)]
  · have hcur := hf.current
    simp only [List.mem_singleton,forall_eq,hino] at hcur
    simp only [List.mem_cons,forall_eq_or_imp,hino,hhead]
    rw [hcur,hr.current,hf.writes,dirtyCount_split sv l,forall_lt_add (dirtyCount [sv])]
    have htruth : (∀ s ∈ l, s.dirty = false → md₁.disk s.ino = s.inode.toBlock) ↔
        ∀ s ∈ l, s.dirty = false → md.disk s.ino = s.inode.toBlock :=
      forall₂_congr fun s hs => by rw [htail hs]
    rw [htruth]
    simp only [Nat.add_assoc]
    tauto

theorem syncVnodes_flushed (hap : Keyed.Apart Sv.ino l)
    (h : syncVnodes wr l md = .ok (l', md')) : Flushed wr l md l' md' := by
  induction l generalizing md l' md' with
  | nil =>
    cases h
    exact ⟨rfl,rfl,fun _ _ => rfl,by simp [dirtyCount]⟩
  | cons sv rest ih =>
    obtain ⟨⟨result,md₁,sv₁⟩,hhead,h₁⟩ := bind_ok h
    obtain ⟨⟨rest₁,md₂⟩,htail,h₂⟩ := bind_ok h₁
    cases h₂
    obtain ⟨hnew,hrest⟩ := List.nodup_cons.mp hap
    refine (fsync_flushed hhead).cons (ih hrest htail) fun s hs heq => hnew ?_
    exact heq ▸ List.mem_map_of_mem hs

theorem fsync_returns :
    (∃ out, fsync wr md sv = .ok out) ↔
      ∀ i < dirtyCount [sv], ∃ result, wr (md.writes + i) = .ok result := by
  rw [dirtyCount_cons,show dirtyCount [] = 0 from rfl,Nat.zero_add]
  unfold fsync
  by_cases hdirty : sv.dirty = true
  · rw [if_pos hdirty,if_pos hdirty]
    simp only [Nat.lt_one_iff,forall_eq,Nat.add_zero]
    constructor
    · rintro ⟨out,h⟩
      obtain ⟨⟨answer,md₁⟩,hw,-⟩ := bind_ok h
      exact ⟨answer,(store_cases hw).1⟩
    · rintro ⟨result,h⟩
      obtain ⟨md₁,hw⟩ := @store_returns wr md sv.inode.toBlock sv.ino result h
      rw [hw]
      cases result with
      | none | some e => exact ⟨_,rfl⟩
  · rw [if_neg hdirty,if_neg hdirty]
    simp

theorem syncVnodes_returns :
    (∃ out, syncVnodes wr l md = .ok out) ↔
      ∀ i < dirtyCount l, ∃ result, wr (md.writes + i) = .ok result := by
  induction l generalizing md with
  | nil => simp [syncVnodes,dirtyCount]
  | cons sv rest ih =>
    rw [dirtyCount_split,forall_lt_add,← fsync_returns]
    constructor
    · rintro ⟨out,h⟩
      obtain ⟨⟨result,md₁,sv₁⟩,hhead,h₁⟩ := bind_ok h
      obtain ⟨rest₁,htail,-⟩ := bind_ok h₁
      have hwrites := (fsync_flushed hhead).writes
      have hrest := ih.mp ⟨_,htail⟩
      rw [hwrites] at hrest
      simp only [Nat.add_assoc] at hrest
      exact ⟨⟨_,hhead⟩,hrest⟩
    · rintro ⟨⟨⟨result,md₁,sv₁⟩,hhead⟩,hrest⟩
      have hwrites := (fsync_flushed hhead).writes
      obtain ⟨out,htail⟩ := (@ih md₁).mpr (by
        rw [hwrites]
        simpa only [Nat.add_assoc] using hrest)
      rw [syncVnodes,hhead,ok_bind]
      dsimp only
      rw [htail]
      exact ⟨_,rfl⟩

end Vnodes

section
variable {wr : Answers} {md md' : Media} {freemap : Nat → Nat} {left j : Nat}

theorem mapioWrite_cases {result : Option Errno}
    (h : mapioWrite wr freemap left j md = .ok (result, md')) (hok : result = none) :
    (∀ i < left, wr (md.writes + i) = .ok none) ∧ md'.writes = md.writes + left ∧
      ∀ b, md'.disk b =
        if 2 + j ≤ b ∧ b < 2 + j + left then mapBlock freemap (b - 2) else md.disk b := by
  induction left generalizing j md with
  | zero =>
    cases h
    refine ⟨fun i hi => absurd hi (Nat.not_lt_zero i),rfl,fun b => ?_⟩
    rw [if_neg (by omega)]
  | succ left ih =>
    rw [mapioWrite] at h
    obtain ⟨⟨_ | e,md₁⟩,hw,hrest⟩ := bind_ok h
    · obtain ⟨hanswer,rfl⟩ := store_cases hw
      obtain ⟨hall,hwrites,hdisk⟩ := ih hrest
      refine ⟨fun i hi => ?_,?_,fun b => ?_⟩
      · cases i with
        | zero => exact hanswer
        | succ i =>
          have hi' := hall i (by omega)
          rwa [Nat.add_assoc,Nat.add_comm 1 i] at hi'
      · rw [hwrites]
        dsimp only
        omega
      · rw [hdisk b]
        dsimp only
        rcases eq_or_ne b (2 + j) with rfl | hne
        · rw [if_neg fun hc => by omega,if_pos rfl,update_self,if_pos (by omega)]
          congr 1
          omega
        · rw [if_pos rfl,update_of_ne hne]
          exact if_congr (by omega) rfl rfl
    · cases hrest
      cases hok

theorem mapioWrite_returns (h : ∀ i < left, wr (md.writes + i) = .ok none) :
    ∃ md', mapioWrite wr freemap left j md = .ok (none, md') := by
  induction left generalizing j md with
  | zero => exact ⟨md,rfl⟩
  | succ left ih =>
    obtain ⟨md₁,hw⟩ := @store_returns wr md (mapBlock freemap j) (2 + j) none (h 0 (by omega))
    obtain ⟨-,hmd⟩ := store_cases hw
    obtain ⟨md₂,hrest⟩ := @ih md₁ (j + 1) fun i hi => by
      rw [hmd]
      have hi' := h (i + 1) (by omega)
      rwa [Nat.add_assoc,Nat.add_comm 1 i]
    rw [mapioWrite,hw,ok_bind]
    exact ⟨md₂,hrest⟩

end

section Whole
variable {wr : Answers} {m m' : Mount} {md md' : Media} {dirty : Bool}

theorem syncFreemap_cases (h : syncFreemap wr m md = .ok (none, md', dirty)) :
    dirty = false ∧ (∀ i < m.mapWrites, wr (md.writes + i) = .ok none) ∧
      md'.writes = md.writes + m.mapWrites ∧
      ∀ b, md'.disk b = if m.freemapdirty = true ∧ 2 ≤ b ∧ b < 2 + m.bitblocks
        then mapBlock m.fs.freemap (b - 2) else md.disk b := by
  unfold syncFreemap at h
  unfold Mount.mapWrites
  split at h
  case isTrue hdirty =>
    obtain ⟨⟨_ | e,md₁⟩,hio,hrest⟩ := bind_ok h
    · cases hrest
      obtain ⟨hall,hwrites,hdisk⟩ := mapioWrite_cases hio rfl
      rw [if_pos hdirty]
      refine ⟨rfl,hall,hwrites,fun b => ?_⟩
      rw [hdisk b]
      exact if_congr (by simp [hdirty]) rfl rfl
    · cases hrest
  case isFalse hclean =>
    cases h
    rw [if_neg hclean]
    exact ⟨rfl,fun i hi => absurd hi (Nat.not_lt_zero i),rfl,fun b => by
      rw [if_neg fun hc => hclean hc.1]⟩

theorem syncFreemap_returns (h : ∀ i < m.mapWrites, wr (md.writes + i) = .ok none) :
    ∃ md', syncFreemap wr m md = .ok (none, md', false) := by
  unfold Mount.mapWrites at h
  unfold syncFreemap
  by_cases hdirty : m.freemapdirty = true
  · rw [if_pos hdirty] at h ⊢
    obtain ⟨md',hio⟩ := @mapioWrite_returns wr md m.fs.freemap _ 0 h
    rw [hio]
    exact ⟨md',rfl⟩
  · rw [if_neg hdirty]
    exact ⟨md,rfl⟩

theorem syncSuper_cases (h : syncSuper wr m md = .ok (none, md', dirty)) :
    dirty = false ∧ (m.superdirty = true → wr md.writes = .ok none) ∧
      ∀ b, md'.disk b = if m.superdirty = true ∧ b = 0 then m.super.toBlock else md.disk b := by
  unfold syncSuper at h
  split at h
  case isTrue hdirty =>
    obtain ⟨⟨_ | e,md₁⟩,hw,hrest⟩ := bind_ok h
    · obtain ⟨hanswer,rfl⟩ := store_cases hw
      cases hrest
      refine ⟨rfl,fun _ => hanswer,fun b => ?_⟩
      dsimp only
      rw [if_pos rfl]
      rcases eq_or_ne b 0 with rfl | hne
      · rw [update_self,if_pos ⟨hdirty,rfl⟩]
      · rw [update_of_ne hne,if_neg fun hc => hne hc.2]
    · cases hrest
  case isFalse hclean =>
    cases h
    exact ⟨rfl,fun h => absurd h hclean,fun b => by rw [if_neg fun hc => hclean hc.1]⟩

theorem syncSuper_returns (h : m.superdirty = true → wr md.writes = .ok none) :
    ∃ md', syncSuper wr m md = .ok (none, md', false) := by
  unfold syncSuper
  by_cases hdirty : m.superdirty = true
  · rw [if_pos hdirty]
    obtain ⟨md',hw⟩ := @store_returns wr md m.super.toBlock 0 none (h hdirty)
    rw [hw]
    exact ⟨md',rfl⟩
  · rw [if_neg hdirty]
    exact ⟨md,rfl⟩

theorem sync_cases (hsp : Spread m) (h : sync wr m = .ok (none, m')) :
    Returns wr m ∧ (Current m' ↔
      Truthful m ∧ ∀ i < dirtyCount m.fs.vnodes, wr i = .ok none) := by
  obtain ⟨⟨vnodes,md₁⟩,hv,h₁⟩ := bind_ok h
  obtain ⟨⟨_ | e,md₂,dirty⟩,hm,h₂⟩ := bind_ok h₁
  · obtain ⟨⟨result,md₃,dirty'⟩,hs,h₃⟩ := bind_ok h₂
    cases h₃
    have hf := syncVnodes_flushed hsp.apart hv
    obtain ⟨rfl,hmap,hmw,hmdisk⟩ := syncFreemap_cases hm
    obtain ⟨rfl,hsuper,hsdisk⟩ := syncSuper_cases hs
    have hret := syncVnodes_returns.mp ⟨_,hv⟩
    have hstart : md₁.writes = dirtyCount m.fs.vnodes := by
      rw [hf.writes]
      exact Nat.zero_add _
    rw [hstart] at hmap hmw
    rw [hmw] at hsuper
    simp only [Nat.zero_add] at hret
    refine ⟨⟨hret,hmap,hsuper⟩,?_⟩
    have hfree {b : Nat} (hb : b = 0 ∨ 2 ≤ b ∧ b < 2 + m.bitblocks) : md₁.disk b = m.fs.disk b := by
      refine hf.frame b fun hmem => ?_
      obtain ⟨sv,hsv,rfl⟩ := List.mem_map.mp hmem
      exact hb.elim (hsp.inside sv hsv).1 (hsp.inside sv hsv).2
    have hino {sv : Sv} (hsv : sv ∈ vnodes) : md₃.disk sv.ino = md₁.disk sv.ino := by
      have hmem : sv.ino ∈ m.fs.vnodes.map Sv.ino := hf.inos ▸ List.mem_map_of_mem hsv
      obtain ⟨sv₀,hsv₀,heq⟩ := List.mem_map.mp hmem
      obtain ⟨hne,hout⟩ := hsp.inside sv₀ hsv₀
      rw [heq] at hne hout
      rw [hsdisk,if_neg fun hc => hne hc.2,hmdisk,if_neg fun hc => hout hc.2]
    have hvnodes : (∀ sv ∈ vnodes, sv.dirty = false ∧ md₃.disk sv.ino = sv.inode.toBlock) ↔
        (∀ sv ∈ m.fs.vnodes, sv.dirty = false → m.fs.disk sv.ino = sv.inode.toBlock) ∧
          ∀ i < dirtyCount m.fs.vnodes, wr i = .ok none := by
      have hcur := hf.current
      simp only [Nat.zero_add] at hcur
      rw [← hcur]
      exact forall₂_congr fun sv hsv => by rw [hino hsv]
    have hmapped (j : Nat) (hj : j < m.bitblocks) : md₃.disk (2 + j) =
        if m.freemapdirty = true then mapBlock m.fs.freemap j else m.fs.disk (2 + j) := by
      rw [hsdisk,if_neg (by omega),hmdisk,Nat.add_sub_cancel_left,hfree (.inr (by omega))]
      exact if_congr (by simp [hj]) rfl rfl
    have hfirst : md₃.disk 0 =
        if m.superdirty = true then m.super.toBlock else m.fs.disk 0 := by
      rw [hsdisk,hmdisk,if_neg (fun hc : _ ∧ 2 ≤ 0 ∧ _ => by omega),hfree (.inl rfl)]
      exact if_congr (by simp) rfl rfl
    constructor
    · rintro ⟨hcv,⟨-,hcm⟩,-,hcs⟩
      obtain ⟨htruth,hwrites⟩ := hvnodes.mp hcv
      refine ⟨⟨htruth,fun hclean j hj => ?_,fun hclean => ?_⟩,hwrites⟩
      · have hd := hcm j hj
        dsimp only at hd
        rwa [hmapped j hj,hclean,if_neg (by decide)] at hd
      · dsimp only at hcs
        rwa [hfirst,hclean,if_neg (by decide)] at hcs
    · rintro ⟨ht,hwrites⟩
      refine ⟨hvnodes.mpr ⟨ht.vnodes,hwrites⟩,⟨rfl,fun j hj => ?_⟩,rfl,?_⟩
      · refine (hmapped j hj).trans ?_
        split
        · rfl
        · exact ht.freemap (Bool.eq_false_iff.mpr ‹_›) j hj
      · refine hfirst.trans ?_
        split
        · rfl
        · exact ht.super (Bool.eq_false_iff.mpr ‹_›)
  · cases h₂

theorem sync_returns_iff (hsp : Spread m) :
    (∃ m', sync wr m = .ok (none, m')) ↔ Returns wr m := by
  constructor
  · rintro ⟨m',h⟩
    exact (sync_cases hsp h).1
  · intro hr
    obtain ⟨⟨vnodes,md₁⟩,hv⟩ := (@syncVnodes_returns wr ⟨m.fs.disk,0⟩ m.fs.vnodes).mpr (by
      simpa only [Nat.zero_add] using hr.vnodes)
    have hstart : md₁.writes = dirtyCount m.fs.vnodes := by
      rw [(syncVnodes_flushed hsp.apart hv).writes]
      exact Nat.zero_add _
    obtain ⟨md₂,hm⟩ := @syncFreemap_returns wr m md₁ (by rw [hstart]; exact hr.freemap)
    obtain ⟨-,-,hmw,-⟩ := syncFreemap_cases hm
    obtain ⟨md₃,hs⟩ := @syncSuper_returns wr m md₂ (by rw [hmw,hstart]; exact hr.super)
    unfold sync
    rw [hv,ok_bind]
    dsimp only
    rw [hm,ok_bind]
    dsimp only
    rw [hs,ok_bind]
    exact ⟨_,rfl⟩

end Whole

theorem sync_leaves_disk_current_iff {wr : Answers} {m : Mount} (hsp : Spread m) :
    (∀ m', sync wr m = .ok (none, m') → Current m') ↔
      (Returns wr m → Truthful m ∧ ∀ i < dirtyCount m.fs.vnodes, wr i = .ok none) := by
  constructor
  · intro h hr
    obtain ⟨m',hm'⟩ := (sync_returns_iff hsp).mpr hr
    exact (sync_cases hsp hm').2.mp (h m' hm')
  · intro h m' hm'
    obtain ⟨hr,hiff⟩ := sync_cases hsp hm'
    exact hiff.mpr (h hr)

section

def newFile : Sv := ⟨3, ⟨0, typeFile, 1, fun _ => 0, 0, fun _ => 0⟩, true, 1, 0⟩

def newFileMount : Mount where
  fs := {
    nblocks := 8
    freemap := fun i => if i = 0 then 15 else if i < 512 then 255 else 0
    nbits := 4096
    disk := fun _ => zeroBlock
    dBlocks := 8
    vnodes := [newFile] }
  super := ⟨0xabadf001, 8, fun _ => 0, fun _ => 0⟩
  superdirty := true
  freemapdirty := true
  same := rfl

theorem newFile_spread : Spread newFileMount := by
  refine ⟨List.nodup_singleton _,fun sv hsv => ?_⟩
  obtain rfl := List.mem_singleton.mp hsv
  decide

theorem sync_leaves_disk_current_calm :
    ∃ m', sync (fun _ => .ok none) newFileMount = .ok (none, m') ∧ Current m' := by
  have hreturns : Returns (fun _ => .ok none) newFileMount :=
    ⟨fun _ _ => ⟨_,rfl⟩,fun _ _ => rfl,fun _ => rfl⟩
  obtain ⟨m',hm'⟩ := (sync_returns_iff newFile_spread).mpr hreturns
  refine ⟨m',hm',(sync_leaves_disk_current_iff newFile_spread).mpr (fun _ => ?_) m' hm'⟩
  refine ⟨⟨?_,?_,?_⟩,fun _ _ => rfl⟩
  · intro sv hsv hclean
    obtain rfl := List.mem_singleton.mp hsv
    cases hclean
  · exact fun hclean => nomatch hclean
  · exact fun hclean => nomatch hclean

theorem sync_hides_inode_error :
    ∃ m', sync (fun i => .ok (if i = 0 then some .eio else none)) newFileMount = .ok (none, m') ∧
      ¬ Current m' := by
  have hreturns : Returns (fun i => .ok (if i = 0 then some .eio else none)) newFileMount := by
    refine ⟨fun i _ => ⟨_,rfl⟩,fun i _ => ?_,fun _ => ?_⟩
    · exact congrArg Except.ok (if_neg (Nat.add_comm 1 i ▸ Nat.succ_ne_zero i))
    · rfl
  obtain ⟨m',hm'⟩ := (sync_returns_iff newFile_spread).mpr hreturns
  refine ⟨m',hm',fun hc => ?_⟩
  have hfirst := ((sync_cases newFile_spread hm').2.mp hc).2 0 (by decide)
  cases hfirst

end

end OS161.Sfs
