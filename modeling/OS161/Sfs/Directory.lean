import OS161.Lib.Slots
import OS161.Sfs.FileIo
import OS161.Sfs.Vnode

namespace OS161.Sfs

open Bytes (load32 store32)

def slotAt (c : Mem) (i : Nat) : Option (CString × Nat) :=
  if load32 c (64 * i) = noino then none
  else some (CString.read c (64 * i + 4) 59, load32 c (64 * i))

def entries (c : Mem) (n : Nat) : Slots CString Nat := (List.range n).map (slotAt c)

section
variable {c c' : Mem} {i n : Nat}

theorem length_entries (c : Mem) (n : Nat) : (entries c n).length = n := by
  rw [entries,List.length_map,List.length_range]

theorem getElem?_entries : (entries c n)[i]? = if i < n then some (slotAt c i) else none := by
  unfold entries
  rw [List.getElem?_map]
  split
  · rename_i h
    rw [List.getElem?_range h,Option.map_some]
  · rename_i h
    rw [List.getElem?_eq_none (by simpa using h),Option.map_none]

theorem slotAt_congr {j : Nat} (h : ∀ k < 64, c' (64 * j + k) = c (64 * i + k)) :
    slotAt c' j = slotAt c i := by
  have hload : load32 c' (64 * j) = load32 c (64 * i) := by
    unfold load32
    rw [h 1 (by decide),h 2 (by decide),h 3 (by decide),show c' (64 * j) = _ from h 0 (by decide)]
    rfl
  have hname : CString.read c' (64 * j + 4) 59 = CString.read c (64 * i + 4) 59 := by
    refine CString.read_congr fun k hk => ?_
    rw [Nat.add_assoc,Nat.add_assoc]
    exact h (4 + k) (by omega)
  unfold slotAt
  rw [hload,hname]

theorem entries_write (hi : i ≤ n)
    (h : ∀ x, x < 64 * i ∨ 64 * i + 64 ≤ x → c' x = c x) :
    entries c' (max n (i + 1)) = (entries c n).write i (slotAt c' i) := by
  refine List.ext_getElem? fun j => ?_
  rw [Slots.getElem?_write (by rwa [length_entries]),getElem?_entries,getElem?_entries]
  by_cases hj : j = i
  · rw [if_pos hj,hj,if_pos (by omega)]
  · rw [if_neg hj]
    have hslot : slotAt c' j = slotAt c j := slotAt_congr fun k hk => h _ (by omega)
    rw [hslot]
    by_cases hn : j < n
    · rw [if_pos hn,if_pos (by omega)]
    · rw [if_neg hn,if_neg (by omega)]

end

section
variable {ino : Nat} {name : CString}

theorem slotAt_dirent (hino : ino < 2 ^ 32) (hne : ino ≠ noino) (hname : name.bytes.length ≤ 59) :
    slotAt (dirent ino name) 0 = some (name, ino) := by
  have hload : load32 (dirent ino name) (64 * 0) = ino := by
    unfold dirent
    rw [Bytes.load32_congr fun x _ hx => CString.poke_outside (.inl (by omega))]
    exact Bytes.load32_store32 hino
  unfold slotAt
  rw [hload,if_neg hne]
  exact congrArg some (Prod.ext (CString.read_poke hname) rfl)

theorem slotAt_noino (m : Mem) : slotAt (store32 m 0 noino) 0 = none := by
  unfold slotAt
  rw [if_pos]
  exact Bytes.load32_store32 (by decide)

end

structure Inode.Dir (n : Inode) : Prop where
  type : n.type = typeDir
  whole : n.size % 64 = 0
  small : n.size ≤ maxBytes

def listing (disk : Nat → Block) (node : Nodes) (k : Nat) : Slots CString Nat :=
  match node k with
  | none => []
  | some n => entries (fileByte disk node k) (n.size / 64)

def Vacancy (s : Slots CString Nat) (i : Nat) (emptyslot : Int) : Prop :=
  emptyslot < 0 ∧ (∀ j < i, s[j]? ≠ some none) ∨ ∃ j : Nat, emptyslot = j ∧ s[j]? = some none

structure Scanned (s : Slots CString Nat) (name : CString) (i : Nat) (f : Find) : Prop where
  found : f.found = true → ∃ j : Nat, j < i ∧ f.slot = j ∧ s[j]? = some (some (name, f.ino))
  missing : f.found = false → ∀ (j : Nat) v, j < i → s[j]? ≠ some (some (name, v))
  empty : Vacancy s i f.emptyslot

section Scan
variable {cur : Curthread} {lost : Nat → Prop} {fs : Fs} {node : Nodes} {sv : Sv} {i : Nat}

theorem listing_eq (hk : node sv.ino = some sv.inode) (disk : Nat → Block) :
    listing disk node sv.ino = entries (fileByte disk node sv.ino) (sv.inode.size / 64) := by
  unfold listing
  rw [hk]

theorem Inode.Dir.low {n : Inode} (hd : n.Dir) : n.size < 2 ^ 31 := by
  have h := hd.small
  unfold maxBytes at h
  omega

theorem slot_pos {slot : Nat} (h : slot < 2 ^ 25) : offT (u32 ((slot : Int) * dirsize)) =
    ((64 * slot : Nat) : Int) := by
  have hu : u32 ((slot : Int) * dirsize) = 64 * slot := by
    have hcast : (slot : Int) * dirsize = ((64 * slot : Nat) : Int) := by
      unfold dirsize
      omega
    rw [hcast,u32_of_nat (by omega)]
  rw [hu]
  exact offT_of_lt (by omega) (by omega)

theorem at_mkKuio (buf : Mem) (rw : UioRw) {x : Nat} (hx : x < 2 ^ 31) :
    (mkKuio buf dirsize x rw).At cur rw x :=
  ⟨rfl,rfl,rfl,Nat.le_refl _,show 64 < 2 ^ 32 by decide,hx⟩

theorem readdir_spec (hs : Sound lost fs node) (hk : node sv.ino = some sv.inode)
    (hd : sv.inode.Dir) (hi : i < sv.inode.size / 64) :
    ∃ tsd, readdir cur fs sv i = .ok (.ok tsd, fs, sv) ∧
      slotAt tsd 0 = slotAt (fileByte fs.disk node sv.ino) i := by
  have hsmall := hd.small
  unfold maxBytes at hsmall
  have hoff : offT sv.inode.size = sv.inode.size := offT_of_lt (by omega) (by omega)
  have hend : offT ((64 * i : Nat) + (64 : Nat)) = ((64 * i + 64 : Nat) : Int) :=
    offT_of_lt (by omega) (by omega)
  have hlen : readLen sv (64 * i) 64 = 64 := by
    unfold readLen
    rw [hoff,hend,if_neg (by omega),if_neg (by omega)]
  have hat : (mkKuio zeros dirsize (64 * i : Nat) .read).At cur .read (64 * i : Nat) :=
    at_mkKuio zeros .read (by omega)
  obtain ⟨result,c,hrun,hm⟩ := io_read hs hk hat
  have hm : Moved _ (64 * i) 64 result c := hlen ▸ hm
  have hnone : result = none := by
    cases result with
    | none => rfl
    | some e =>
      have hshort := hm.short e rfl (by decide)
      rcases hm.failed e rfl with ⟨-,hge⟩ | ⟨-,hnot⟩
      · unfold maxBytes at hge
        omega
      · exact absurd rfl hnot
  subst hnone
  obtain rfl := hm.all rfl
  have hres : ((mkKuio zeros dirsize ((64 * i : Nat) : Int) .read).took
      (fileByte fs.disk node sv.ino) (64 * i) 64).resid = 0 := hat.resid_took (Nat.le_refl _)
  unfold readdir
  rw [slot_pos (by omega)]
  dsimp only
  rw [hrun,ok_bind]
  dsimp only
  rw [if_neg (by omega)]
  refine ⟨_,rfl,slotAt_congr fun k hk64 => ?_⟩
  dsimp only [Uio.took,Uio.fillAt,Uio.advance,mkKuio]
  unfold memmove
  rw [if_pos (by omega),Nat.mul_zero,Nat.zero_add,Nat.sub_zero]

theorem dirNentries_eq (hd : sv.inode.Dir) : dirNentries sv = .ok (sv.inode.size / 64) := by
  have hlow := hd.low
  have hoff : u32 (offT sv.inode.size) = sv.inode.size := by
    rw [offT_of_lt (by omega) (by omega)]
    exact u32_of_nat (by omega)
  unfold dirNentries
  rw [assert_of (decide_eq_true hd.type),ok_bind]
  dsimp only
  rw [hoff]
  exact if_neg (not_not.mpr hd.whole)

section Step
variable {s : Slots CString Nat} {name : CString} {f : Find}

theorem Scanned.start (s : Slots CString Nat) (name : CString) :
    Scanned s name 0 ⟨false, 0, -1, -1⟩ :=
  ⟨fun h => (nomatch h),fun _ j _ hj => absurd hj (Nat.not_lt_zero j),
    .inl ⟨by decide,fun j hj => absurd hj (Nat.not_lt_zero j)⟩⟩

theorem Vacancy.pass {e : Int} (h : Vacancy s i e) (hi : s[i]? ≠ some none) :
    Vacancy s (i + 1) e := by
  refine h.imp_left fun ⟨he,hall⟩ => ⟨he,fun j hj => ?_⟩
  rcases Nat.lt_succ_iff_lt_or_eq.mp hj with hlt | rfl
  · exact hall j hlt
  · exact hi

theorem Scanned.other (h : Scanned s name i f) (hne : ∀ v, s[i]? ≠ some (some (name, v)))
    {e : Int} (he : Vacancy s (i + 1) e) : Scanned s name (i + 1) { f with emptyslot := e } := by
  refine ⟨fun hf => ?_,fun hf j v hj => ?_,he⟩
  · obtain ⟨j,hj,hslot⟩ := h.found hf
    exact ⟨j,Nat.lt_succ_of_lt hj,hslot⟩
  · rcases Nat.lt_succ_iff_lt_or_eq.mp hj with hlt | rfl
    · exact h.missing hf j v hlt
    · exact hne v

theorem Scanned.vacant (h : Scanned s name i f) (hi : s[i]? = some none) :
    Scanned s name (i + 1) { f with emptyslot := i } :=
  h.other (fun _ hv => nomatch hi.symm.trans hv) (.inr ⟨i,rfl,hi⟩)

theorem Scanned.hit {v : Nat} (h : Scanned s name i f) (hi : s[i]? = some (some (name, v))) :
    Scanned s name (i + 1) { f with found := true, slot := i, ino := v } :=
  ⟨fun _ => ⟨i,Nat.lt_succ_self i,rfl,hi⟩,fun hf => (nomatch hf),
    h.empty.pass fun hn => nomatch hi.symm.trans hn⟩

theorem Scanned.bound (h : Scanned s name i f) (hf : f.found = true) : s.Binds name f.ino := by
  obtain ⟨j,-,-,hj⟩ := h.found hf
  exact Slots.binds_iff.mpr ⟨j,hj⟩

theorem Scanned.free (h : Scanned s name s.length f) (hf : f.found = false) (v : Nat) :
    ¬ s.Binds name v := by
  rw [Slots.binds_iff]
  rintro ⟨j,hj⟩
  exact h.missing hf j v (List.getElem?_eq_some_iff.mp hj).1 hj

end Step

section
variable (hs : Sound lost fs node) (hk : node sv.ino = some sv.inode) (hd : sv.inode.Dir)
  (hu : (listing fs.disk node sv.ino).Unique) (name : CString)
include hs hk hd hu name

theorem findLoop_spec (left : Nat) {f : Find} (hleft : left + i = sv.inode.size / 64)
    (hf : Scanned (listing fs.disk node sv.ino) name i f) :
    ∃ f', findLoop cur name left i f fs sv = .ok (.ok f', fs, sv) ∧
      Scanned (listing fs.disk node sv.ino) name (sv.inode.size / 64) f' := by
  induction left generalizing i f with
  | zero =>
    rw [Nat.zero_add] at hleft
    exact ⟨f,rfl,hleft ▸ hf⟩
  | succ left ih =>
    have hlt : i < sv.inode.size / 64 := by omega
    obtain ⟨tsd,hrun,hslot⟩ := @readdir_spec cur _ _ _ _ _ hs hk hd hlt
    have hget : (listing fs.disk node sv.ino)[i]? = some (slotAt tsd 0) := by
      rw [listing_eq hk,getElem?_entries,if_pos hlt,hslot]
    unfold findLoop
    rw [hrun,ok_bind]
    dsimp only
    unfold slotAt at hget
    by_cases hno : load32 tsd 0 = noino
    · rw [if_pos hno] at hget ⊢
      exact ih (by omega) (hf.vacant hget)
    · rw [if_neg hno] at hget ⊢
      by_cases hname : CString.read tsd 4 (namelen - 1) = name
      · have hhit : (listing fs.disk node sv.ino)[i]? = some (some (name, load32 tsd 0)) := by
          rw [← hname]
          exact hget
        have hfirst : f.found = false := by
          cases hfound : f.found with
          | false => rfl
          | true =>
            obtain ⟨j,hj,-,hprev⟩ := hf.found hfound
            exact absurd (hu j i _ _ _ hprev hhit) (Nat.ne_of_lt hj)
        rw [if_pos hname,assert_of (decide_eq_true hfirst),ok_bind]
        exact ih (by omega) (hf.hit hhit)
      · rw [if_neg hname]
        refine ih (by omega) (hf.other (fun v hv => hname ?_) (hf.empty.pass fun hn => ?_))
        swap
        · exact nomatch hget.symm.trans hn
        rw [hget] at hv
        exact congrArg Prod.fst (Option.some.inj (Option.some.inj hv))

theorem dirFindname_spec :
    ∃ f, dirFindname cur fs sv name = .ok (if f.found then none else some .enoent, f, fs, sv) ∧
      Scanned (listing fs.disk node sv.ino) name (sv.inode.size / 64) f := by
  obtain ⟨f,hrun,hf⟩ := @findLoop_spec cur _ _ _ _ 0 hs hk hd hu name (sv.inode.size / 64) _ rfl
    (.start _ name)
  refine ⟨f,?_,hf⟩
  unfold dirFindname
  rw [dirNentries_eq hd,ok_bind]
  dsimp only
  rw [hrun,ok_bind]

end

end Scan

section Update
variable {cur : Curthread} {lost : Nat → Prop} {fs fs' : Fs} {node : Nodes} {sv sv' : Sv} {i : Nat}
  {d : Mem}

def Full (fs : Fs) (node : Nodes) (k i : Nat) (e : Errno) : Prop :=
  e = .enospc ∧ diskBlock fs.disk node k (64 * i / 512) = none ∨ e = .einval ∧ maxBytes ≤ 64 * i

def Dense (fs : Fs) (node : Nodes) (sv : Sv) : Prop :=
  ∀ fb, 512 * fb < sv.inode.size → ∃ b, diskBlock fs.disk node sv.ino fb = some b

theorem Fills.diskBlock_keeps {lo hi fb b : Nat} (hw : Fills lost d lo hi fs node sv fs' sv')
    (h : diskBlock fs.disk node sv.ino fb = some b) :
    diskBlock fs'.disk (node.put sv') sv.ino fb = some b := by
  obtain ⟨o,ho,hb⟩ := Option.bind_eq_some_iff.mp h
  exact Option.bind_eq_some_iff.mpr ⟨o,ho,hw.keeps o b hb⟩

theorem Fills.dense {lo hi : Nat} (hw : Fills lost d lo hi fs node sv fs' sv')
    (hd : Dense fs node sv) {pos : Int} (hcover : ∀ fb, 512 * fb < (sv'.grow pos).inode.size →
      512 * fb < sv.inode.size ∨ ∃ x, lo ≤ x ∧ x < hi ∧ x / 512 = fb) :
    Dense fs' (node.put (sv'.grow pos)) (sv'.grow pos) := by
  intro fb hfb
  rw [(hw.toWrites.grow pos).ino,diskBlock,held_grow]
  rcases hcover fb hfb with hold | ⟨x,hlo,hhi,rfl⟩
  · obtain ⟨b,hb⟩ := hd fb hold
    exact ⟨b,hw.diskBlock_keeps hb⟩
  · exact hw.mapped x hlo hhi

theorem Edits.dir (h : Edits lost fs node sv fs' sv') (hd : sv.inode.Dir)
    (hwhole : sv'.inode.size % 64 = 0) (hsmall : sv'.inode.size ≤ maxBytes) : sv'.inode.Dir := by
  refine ⟨?_,hwhole,hsmall⟩
  rw [h.same]
  exact hd.type

theorem listing_put (disk : Nat → Block) {k : Nat} (hk : sv.ino = k) :
    listing disk (node.put sv) k =
      entries (fileByte disk (node.put sv) k) (sv.inode.size / 64) := by
  rw [← hk]
  exact listing_eq (put_apply node sv) disk

theorem Writes.entry (hk : node sv.ino = some sv.inode)
    (hd : sv.inode.Dir) (hi : i ≤ sv.inode.size / 64) (hend : 64 * i + 64 ≤ maxBytes)
    (hw : Writes lost d (64 * i) (64 * i + 64) fs node sv fs' sv') :
    (sv'.grow ((64 * i + 64 : Nat) : Int)).inode.Dir ∧
      listing fs'.disk (node.put (sv'.grow ((64 * i + 64 : Nat) : Int))) sv.ino =
        (listing fs.disk node sv.ino).write i (slotAt d i) := by
  have hsmall := hd.small
  have hwhole := hd.whole
  have hgrown := hw.grow ((64 * i + 64 : Nat) : Int)
  have hsize : (sv'.grow ((64 * i + 64 : Nat) : Int)).inode.size =
      max sv.inode.size (64 * i + 64) := by
    unfold maxBytes at hend
    rw [grow_size (hw.size ▸ hd.low) (by omega),hw.size]
  refine ⟨hgrown.dir hd (by omega) (by omega),?_⟩
  have hn : max sv.inode.size (64 * i + 64) / 64 = max (sv.inode.size / 64) (i + 1) := by
    omega
  have hslot : slotAt (fileByte fs'.disk (node.put sv') sv.ino) i = slotAt d i :=
    slotAt_congr fun k hk => by rw [hw.bytes,if_pos (by omega)]
  rw [listing_put _ hgrown.ino,listing_eq hk,hsize,hn,fileByte_grow,← hslot]
  refine entries_write hi fun x hx => ?_
  rw [hw.bytes,if_neg (by omega)]

theorem Writes.untouched (hk : node sv.ino = some sv.inode)
    (hd : sv.inode.Dir) {x : Nat} (hw : Writes lost d x x fs node sv fs' sv') :
    sv'.inode.Dir ∧ listing fs'.disk (node.put sv') sv.ino = listing fs.disk node sv.ino := by
  refine ⟨hw.dir hd (hw.size ▸ hd.whole) (hw.size ▸ hd.small),?_⟩
  rw [listing_put _ hw.ino,listing_eq hk,hw.size]
  congr 1
  funext y
  rw [hw.bytes,if_neg (by omega)]

variable (hs : Sound lost fs node) (hk : node sv.ino = some sv.inode) (hd : sv.inode.Dir)
  (hdense : Dense fs node sv)

include hs hk hd in
theorem writedir_spec (hi : i ≤ sv.inode.size / 64) (sd : Mem) :
    ∃ result fs' sv', writedir cur fs sv sd i = .ok (result, fs', sv') ∧
      Edits lost fs node sv fs' sv' ∧ sv'.inode.Dir ∧
      (result = none ∧ listing fs'.disk (node.put sv') sv.ino =
          (listing fs.disk node sv.ino).write i (slotAt sd 0) ∨
        ∃ e, result = some e ∧ Full fs node sv.ino i e ∧
          listing fs'.disk (node.put sv') sv.ino = listing fs.disk node sv.ino) ∧
      (Dense fs node sv → Dense fs' (node.put sv') sv') := by
  have hsmall := hd.small
  have hlow := hd.low
  have hwhole := hd.whole
  have hat : (mkKuio sd dirsize (64 * i : Nat) .write).At cur .write (64 * i : Nat) :=
    at_mkKuio sd .write (by omega)
  have hfeeds : Feeds cur (fun y => sd (y - 64 * i)) (64 * i)
      (mkKuio sd dirsize ((64 * i : Nat) : Int) .write) := by
    refine ⟨hat,fun j _ => ?_⟩
    dsimp only [mkKuio]
    rw [Nat.zero_add,Nat.add_sub_cancel_left]
  obtain ⟨result,fs',sv',c,hrun,hw,hm,hfull⟩ := io_write_single hs hk hfeeds
    (show 0 < 64 by decide) (show 64 < 512 by decide) (show 64 * i % 512 + 64 ≤ 512 by omega)
  have hm : Moved _ (64 * i) 64 result c := hm
  unfold writedir
  rw [assert_of (decide_eq_true (Int.natCast_nonneg i)),ok_bind,slot_pos (by omega)]
  dsimp only
  rw [hrun,ok_bind]
  cases result with
  | none =>
    obtain rfl := hm.all rfl
    have hres : ((mkKuio sd dirsize ((64 * i : Nat) : Int) .write).advance 64).resid = 0 :=
      hat.resid_advance (Nat.le_refl _)
    have hreach : 64 * i + 64 ≤ maxBytes := hm.reach (by decide)
    obtain ⟨hdir,hlist⟩ := hw.entry hk hd hi hreach
    have hslot : slotAt (fun y => sd (y - 64 * i)) i = slotAt sd 0 :=
      slotAt_congr fun k _ => by rw [Nat.add_sub_cancel_left,Nat.mul_zero,Nat.zero_add]
    have hsize : (sv'.grow ((64 * i + 64 : Nat) : Int)).inode.size =
        max sv.inode.size (64 * i + 64) := by
      unfold maxBytes at hreach
      rw [grow_size (hw.size ▸ hlow) (by omega),hw.size]
    refine ⟨none,fs',sv'.grow ((64 * i + 64 : Nat) : Int),?_,hw.toWrites.grow _,hdir,
      .inl ⟨rfl,?_⟩,fun hdense => hw.dense hdense fun fb hfb => ?_⟩
    · dsimp only
      rw [if_neg (by omega)]
    · rw [hlist,hslot]
    · rw [hsize] at hfb
      by_cases hold : 512 * fb < sv.inode.size
      · exact .inl hold
      · exact .inr ⟨64 * i,Nat.le_refl _,by omega,by omega⟩
  | some e =>
    obtain ⟨rfl,hblock⟩ := hfull e rfl
    obtain ⟨hdir,hlist⟩ := hw.untouched hk hd
    have hself : sv'.grow ((64 * i + 0 : Nat) : Int) = sv' :=
      grow_eq_self (hw.size ▸ hlow) (by rw [hw.size]; omega)
    refine ⟨some e,fs',sv',?_,hw.toEdits,hdir,.inr ⟨e,rfl,?_,hlist⟩,fun hdense => ?_⟩
    · rw [hself]
    · rcases hm.failed e rfl with rfl | ⟨rfl,hge⟩ | ⟨-,hnot⟩
      · exact .inl ⟨rfl,hblock rfl⟩
      · exact .inr ⟨rfl,hge⟩
      · exact absurd rfl hnot
    · rw [← hself]
      refine hw.dense hdense fun fb hfb => .inl ?_
      rwa [hself,hw.size] at hfb

structure Fits (s : Slots CString Nat) (name : CString) (j : Nat) : Prop where
  le : j ≤ s.length
  vacant : s[j]?.join = none
  last : j = s.length → none ∉ s
  free : ∀ v, ¬ s.Binds name v
  short : name.bytes.length ≤ 59

-- The last two come of a directory whose slots are all taken: another one is then needed, on a
-- new block if they fill theirs, and there is none past the largest file.
inductive LinkFails (s : Slots CString Nat) (name : CString) : Errno → Prop
  | bound {v : Nat} : s.Binds name v → LinkFails s name .eexist
  | long : (∀ v, ¬ s.Binds name v) → 59 < name.bytes.length → LinkFails s name .enametoolong
  | nospace : Fits s name s.length → s.length % 8 = 0 → LinkFails s name .enospc
  | toobig : Fits s name s.length → s.length = 1144 → LinkFails s name .einval

theorem length_listing (fs : Fs) (hk : node sv.ino = some sv.inode) :
    (listing fs.disk node sv.ino).length = sv.inode.size / 64 := by
  rw [listing_eq hk,length_entries]

inductive Linking (s : Slots CString Nat) (name : CString) (ino : Nat) :
    Option Errno → Int → Slots CString Nat → Prop
  | done {j : Nat} : Fits s name j → Linking s name ino none j (s.write j (some (name, ino)))
  | failed {e : Errno} {slot : Int} : LinkFails s name e → Linking s name ino (some e) slot s

include hs hk hd hdense in
theorem dirInsert_spec {name : CString} {ino j : Nat} (hino : ino < 2 ^ 32) (hne : ino ≠ noino)
    (hfit : Fits (listing fs.disk node sv.ino) name j) :
    ∃ result slot fs' sv', dirInsert cur fs sv name ino j = .ok (result, slot, fs', sv') ∧
      Edits lost fs node sv fs' sv' ∧ sv'.inode.Dir ∧ Dense fs' (node.put sv') sv' ∧
      Linking (listing fs.disk node sv.ino) name ino result slot
        (listing fs'.disk (node.put sv') sv.ino) := by
  have hlen := length_listing fs hk
  have hle : j ≤ sv.inode.size / 64 := hlen ▸ hfit.le
  have hwhole := hd.whole
  have hsmall := hd.small
  obtain ⟨result,fs',sv',hrun,hedits,hdir,hout,hkept⟩ :=
    @writedir_spec cur _ _ _ _ _ hs hk hd hle (dirent ino name)
  rw [slotAt_dirent hino hne hfit.short] at hout
  refine ⟨result,j,fs',sv',?_,hedits,hdir,hkept hdense,?_⟩
  · unfold dirInsert
    rw [hrun,ok_bind]
  · rcases hout with ⟨rfl,hlist⟩ | ⟨e,rfl,hfull,hlist⟩
    · rw [hlist]
      exact .done hfit
    · rw [hlist]
      refine .failed ?_
      rcases hfull with ⟨rfl,hhole⟩ | ⟨rfl,hge⟩
      · have hout : ¬ 512 * (64 * j / 512) < sv.inode.size := fun hlt => by
          obtain ⟨b,hb⟩ := hdense _ hlt
          cases hb.symm.trans hhole
        obtain rfl : j = (listing fs.disk node sv.ino).length := by omega
        exact .nospace hfit (by omega)
      · unfold maxBytes at hge hsmall
        obtain rfl : j = (listing fs.disk node sv.ino).length := by omega
        exact .toobig hfit (by omega)

include hs hk hd hdense in
theorem dirLink_spec (hu : (listing fs.disk node sv.ino).Unique) (name : CString) {ino : Nat}
    (hino : ino < 2 ^ 32) (hne : ino ≠ noino) :
    ∃ result slot fs' sv', dirLink cur fs sv name ino = .ok (result, slot, fs', sv') ∧
      Edits lost fs node sv fs' sv' ∧ sv'.inode.Dir ∧ Dense fs' (node.put sv') sv' ∧
      Linking (listing fs.disk node sv.ino) name ino result slot
        (listing fs'.disk (node.put sv') sv.ino) := by
  obtain ⟨f,hfind,hf⟩ := @dirFindname_spec cur _ _ _ _ hs hk hd hu name
  rw [← length_listing fs hk] at hf
  have hsame : Dense fs (node.put sv) sv := (put_self hk).symm ▸ hdense
  have hself {e : Errno} (h : LinkFails (listing fs.disk node sv.ino) name e) :
      Linking (listing fs.disk node sv.ino) name ino (some e) (-1)
        (listing fs.disk (node.put sv) sv.ino) := by
    rw [put_self hk]
    exact .failed h
  unfold dirLink
  rw [hfind,ok_bind]
  cases hfound : f.found with
  | true => exact ⟨_,_,fs,sv,rfl,.refl hs hk,hd,hsame,hself (.bound (hf.bound hfound))⟩
  | false =>
    have hfree := hf.free hfound
    rw [if_neg Bool.false_ne_true]
    dsimp only
    by_cases hlong : name.bytes.length + 1 > namelen
    · rw [if_pos hlong]
      unfold namelen at hlong
      exact ⟨_,_,fs,sv,rfl,.refl hs hk,hd,hsame,hself (.long hfree (by omega))⟩
    · rw [if_neg hlong]
      have hshort : name.bytes.length ≤ 59 := by
        unfold namelen at hlong
        omega
      rcases hf.empty with ⟨hnone,htaken⟩ | ⟨j,hj,hvac⟩
      · rw [if_pos hnone,dirNentries_eq hd,ok_bind,← length_listing fs hk]
        refine dirInsert_spec hs hk hd hdense hino hne ⟨Nat.le_refl _,?_,fun _ hmem => ?_,hfree,
          hshort⟩
        · rw [List.getElem?_eq_none (Nat.le_refl _)]
          rfl
        · obtain ⟨j,hj⟩ := List.mem_iff_getElem?.mp hmem
          exact htaken j (List.getElem?_eq_some_iff.mp hj).1 hj
      · have hlt := (List.getElem?_eq_some_iff.mp hvac).1
        rw [if_neg (by omega),hj]
        exact dirInsert_spec hs hk hd hdense hino hne
          ⟨hlt.le,by rw [hvac]; rfl,fun hlast => absurd hlast hlt.ne,hfree,hshort⟩

theorem slotAt_hole {k : Nat} (h : diskBlock fs.disk node k (64 * i / 512) = none) :
    slotAt (fileByte fs.disk node k) i = none := by
  have hzero (x : Nat) (hx : x / 512 = 64 * i / 512) : fileByte fs.disk node k x = 0 := by
    unfold fileByte
    unfold diskBlock at h
    rw [hx]
    cases ho : fileSlot k (64 * i / 512) with
    | none => rfl
    | some o =>
      rw [ho,Option.bind_some] at h
      dsimp only
      rw [cell,Ledger.cell_of_none h,toMem_zeroBlock]
  exact (@slotAt_congr zeros _ 0 i fun k hk => hzero _ (by omega)).trans (if_pos rfl)

include hs hk hd hdense in
theorem dirUnlink_spec {j v : Nat} {name : CString}
    (hj : (listing fs.disk node sv.ino)[j]? = some (some (name, v))) :
    ∃ fs' sv', dirUnlink cur fs sv j = .ok (none, fs', sv') ∧
      Edits lost fs node sv fs' sv' ∧ sv'.inode.Dir ∧ Dense fs' (node.put sv') sv' ∧
      listing fs'.disk (node.put sv') sv.ino = (listing fs.disk node sv.ino).write j none := by
  have hlt : j < sv.inode.size / 64 :=
    length_listing fs hk ▸ (List.getElem?_eq_some_iff.mp hj).1
  obtain ⟨result,fs',sv',hrun,hedits,hdir,hout,hkept⟩ :=
    @writedir_spec cur _ _ _ _ _ hs hk hd (Nat.le_of_lt hlt) (store32 zeros 0 noino)
  rcases hout with ⟨rfl,hlist⟩ | ⟨e,-,hfull,-⟩
  · rw [slotAt_noino] at hlist
    exact ⟨fs',sv',hrun,hedits,hdir,hkept hdense,hlist⟩
  · exfalso
    rcases hfull with ⟨-,hhole⟩ | ⟨-,hge⟩
    · rw [listing_eq hk,getElem?_entries,if_pos hlt,slotAt_hole hhole] at hj
      cases hj
    · have hsmall := hd.small
      omega

end Update

end OS161.Sfs
