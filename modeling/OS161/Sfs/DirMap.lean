import OS161.Lib.Refine
import OS161.Sfs.Format

namespace OS161.Sfs

open Function Mksfs

abbrev NameMap := CString → Option Nat

inductive DirOp where
  | find (name : CString)
  | link (name : CString) (ino : { k // k < 2 ^ 32 ∧ k ≠ noino })
  | unlink (name : CString)

namespace DirOp

-- sfs_remove hands sfs_dir_unlink the slot that sfs_dir_findname has found.
def run (cur : Curthread) : DirOp → Fs × Sv → Kern (Except Errno Nat × Fs × Sv)
  | .find name, (fs, sv) => do
    let (result, f, s) ← dirFindname cur fs sv name
    .ok (result.elim (.ok f.ino) .error, s)
  | .link name ino, (fs, sv) => do
    let (result, _, s) ← dirLink cur fs sv name ino
    .ok (result.elim (.ok ino) .error, s)
  | .unlink name, (fs, sv) => do
    match ← dirFindname cur fs sv name with
    | (some e, _, s) => .ok (.error e, s)
    | (none, f, fs, sv) => do
      let (result, s) ← dirUnlink cur fs sv f.slot
      .ok (result.elim (.ok f.ino) .error, s)

def Ideal : DirOp → NameMap → Except Errno Nat → NameMap → Prop
  | .find name, map, r, map' => r = (map name).elim (.error .enoent) .ok ∧ map' = map
  | .unlink name, map, r, map' =>
    r = (map name).elim (.error .enoent) .ok ∧ map' = update map name none
  | .link name ino, map, r, map' =>
    if map name ≠ none then r = .error .eexist ∧ map' = map
    else if 59 < name.bytes.length then r = .error .enametoolong ∧ map' = map
    else r = .ok ↑ino ∧ map' = update map name ino ∨
      r = .error .enospc ∧ (∃ n, Slots.Names map (8 * n)) ∧ map' = map ∨
      r = .error .einval ∧ Slots.Names map 1144 ∧ map' = map

end DirOp

def Mirrors (s : Fs × Sv) (map : NameMap) : Prop :=
  ∃ lost node, Sound lost s.1 node ∧ node s.2.ino = some s.2.inode ∧ s.2.inode.Dir ∧
    Dense s.1 node s.2 ∧ (listing s.1.disk node s.2.ino).Maps map

theorem ideal_of_free {name : CString} {ino : { k // k < 2 ^ 32 ∧ k ≠ noino }} {map map' : NameMap}
    {r : Except Errno Nat} (hfree : map name = none) (hshort : name.bytes.length ≤ 59) :
    (DirOp.link name ino).Ideal map r map' ↔ r = .ok ↑ino ∧ map' = update map name ↑ino ∨
      r = .error .enospc ∧ (∃ n, Slots.Names map (8 * n)) ∧ map' = map ∨
      r = .error .einval ∧ Slots.Names map 1144 ∧ map' = map := by
  dsimp only [DirOp.Ideal]
  rw [if_neg (not_not.mpr hfree),if_neg (Nat.not_lt.mpr hshort)]

theorem Mirrors.step (cur : Curthread) (op : DirOp) (s : Fs × Sv) (map : NameMap)
    (h : Mirrors s map) (_ : True) :
    ∃ r s' map', op.run cur s = .ok (r, s') ∧ op.Ideal map r map' ∧ Mirrors s' map' := by
  obtain ⟨fs,sv⟩ := s
  have hsame := h
  obtain ⟨lost,node,hs,hk,hd,hdense,hm⟩ := h
  have hnext {fs' sv' map'} (h : Edits lost fs node sv fs' sv') (hd' : sv'.inode.Dir)
      (hdense' : Dense fs' (node.put sv') sv')
      (hm' : (listing fs'.disk (node.put sv') sv.ino).Maps map') : Mirrors (fs',sv') map' :=
    ⟨lost,_,h.sound,put_apply node sv',hd',hdense',h.ino ▸ hm'⟩
  have hnone {name : CString} (hfree : ∀ v, ¬ (listing fs.disk node sv.ino).Binds name v) :
      map name = none :=
    Option.eq_none_iff_forall_ne_some.mpr fun v hv => hfree v ((hm.2 ..).mp hv)
  have hfind (name : CString) := @dirFindname_spec cur _ _ _ _ hs hk hd hm.1 name
  rw [← length_listing fs hk] at hfind
  cases op with
  | find name =>
    obtain ⟨f,hrun,hf⟩ := hfind name
    refine ⟨_,_,map,by rw [DirOp.run,hrun]; rfl,⟨?_,rfl⟩,hsame⟩
    cases hfound : f.found with
    | true => rw [(hm.2 ..).mpr (hf.bound hfound)]; rfl
    | false => rw [hnone (hf.free hfound)]; rfl
  | link name ino =>
    obtain ⟨result,slot,fs',sv',hrun,hedits,hdir,hkept,hlink⟩ :=
      @dirLink_spec cur _ _ _ _ hs hk hd hdense hm.1 name ino ino.2.1 ino.2.2
    replace hnext {map'} := @hnext fs' sv' map' hedits hdir hkept
    rw [DirOp.run,hrun]
    generalize listing fs'.disk (node.put sv') sv.ino = t at hlink hnext
    cases hlink with
    | done hfit =>
      refine ⟨_,_,_,rfl,(ideal_of_free (hnone hfit.free) hfit.short).mpr (.inl ⟨rfl,rfl⟩),
        hnext (hm.write hfit.le (fun k w hj => ?_) (fun j w hj => ?_) (some ino.1))⟩
      · cases hj ▸ hfit.vacant
      · exact absurd (Slots.binds_iff.mpr ⟨j,hj⟩) (hfit.free w)
    | failed hfail =>
      refine ⟨_,_,_,rfl,?_,hnext hm⟩
      cases hfail with
      | bound hb => exact (if_pos (by simp [(hm.2 ..).mpr hb])).mpr ⟨rfl,rfl⟩
      | long hfree hlong =>
        exact (if_neg (not_not.mpr (hnone hfree))).mpr ((if_pos hlong).mpr ⟨rfl,rfl⟩)
      | nospace hfit hfull =>
        refine (ideal_of_free (hnone hfit.free) hfit.short).mpr (.inr (.inl ⟨rfl,?_,rfl⟩))
        have hnames := hm.names (hfit.last rfl)
        exact ⟨_,Nat.mul_div_cancel' (Nat.dvd_of_mod_eq_zero hfull) ▸ hnames⟩
      | toobig hfit hfull =>
        refine (ideal_of_free (hnone hfit.free) hfit.short).mpr (.inr (.inr ⟨rfl,?_,rfl⟩))
        exact hfull ▸ hm.names (hfit.last rfl)
  | unlink name =>
    obtain ⟨f,hrun,hf⟩ := hfind name
    rw [DirOp.run,hrun,ok_bind]
    cases hfound : f.found with
    | false =>
      have hnil := hnone (hf.free hfound)
      refine ⟨_,_,_,rfl,⟨by rw [hnil]; rfl,rfl⟩,?_⟩
      rwa [update_eq_self_iff.mpr hnil.symm]
    | true =>
      obtain ⟨j,-,hslot,hj⟩ := hf.found hfound
      obtain ⟨fs',sv',hun,hedits,hdir,hkept,hlist⟩ :=
        @dirUnlink_spec cur _ _ _ _ hs hk hd hdense j _ _ hj
      simp only [if_true,hslot,hun,ok_bind]
      refine ⟨_,_,_,rfl,⟨by rw [(hm.2 ..).mpr (hf.bound hfound)]; rfl,rfl⟩,
        hnext hedits hdir hkept (hlist ▸ hm.write ?_ (fun k w h => ?_) (fun i w h => ?_) none)⟩
      · exact (List.getElem?_eq_some_iff.mp hj).1.le
      · cases hj.symm.trans h
        rfl
      · exact hm.1 _ _ _ _ _ h hj

theorem mksfs_root_behaves {n : Nat} {volname : List Byte} {disk disk' : Nat → Block}
    (cur : Curthread) (h3 : 3 ≤ n) (hn : n < 2 ^ 31)
    (hmk : mksfs volname n disk = .ok disk') (ops : List DirOp) :
    ∃ m, domount cur ⟨true, true, true⟩ ⟨n, 512, disk'⟩ = .ok (.ok m) ∧
      Refine.Behaves (DirOp.run cur) (fun _ _ => True) DirOp.Ideal ops
        (m.fs, ⟨rootLocation, Inode.ofBlock (m.fs.disk rootLocation), false, 1, 0⟩)
        fun _ => none := by
  have hf := mksfs_formatted hn hmk
  obtain ⟨m,hmount,hm⟩ := domount_formatted cur h3 hn hf
  have hfits : bitblocks n ≤ 32 := hf.fits
  rw [bitblocks_eq hn] at hfits
  obtain ⟨hgeo,hledger⟩ := hm.sound h3 (by omega)
  have hblocks : m.fs.nblocks = n := m.same.trans hm.nblocks
  have hnone (o : Owner) : held m.fs.disk (fun _ => none) o = none := by
    cases o <;> rfl
  have hheld (o : Owner) (b : Nat) :
      held m.fs.disk (update (fun _ => none) 1 (some rootdir)) o = some b ↔
        o = .ino 1 ∧ b = 1 := by
    cases o <;> simp [held,update_apply,rootdir,ref] <;> grind
  refine ⟨m,hmount,Refine.behaves_of_step (Mirrors.step cur) ops ?_⟩
  rw [rootLocation,hm.root]
  refine ⟨fun _ => False,_,⟨hgeo,fun b => ?_,fun o b ho => ?_,fun o o' b ho ho' => ?_⟩,
    put_apply (fun _ => none) _,⟨rfl,rfl,Nat.zero_le _⟩,fun fb hfb => absurd hfb (Nat.not_lt_zero _),
    ?_⟩
  · simp [hledger.used_iff,hheld,hnone]
  · obtain ⟨-,rfl⟩ := (hheld ..).mp ho
    simp [Fs.fixed]
    omega
  · rw [((hheld ..).mp ho).1,((hheld ..).mp ho').1]
  · simp [listing,entries,rootdir,Slots.Maps,Slots.Unique,Slots.Binds]

theorem mksfs_root_behaves_five_blocks : ∃ disk', mksfs [] 5 (fun _ => zeroBlock) = .ok disk' ∧
    ∀ ops : List DirOp, ∃ m,
      domount ⟨none, fun _ _ => none⟩ ⟨true, true, true⟩ ⟨5, 512, disk'⟩ = .ok (.ok m) ∧
      Refine.Behaves (DirOp.run ⟨none, fun _ _ => none⟩) (fun _ _ => True) DirOp.Ideal ops
        (m.fs, ⟨rootLocation, Inode.ofBlock (m.fs.disk rootLocation), false, 1, 0⟩)
        fun _ => none := by
  obtain ⟨disk',hmk⟩ := @mksfs_ok 5 [] (by decide) (by decide) (by decide) (by decide) (by decide)
    fun _ => zeroBlock
  exact ⟨disk',hmk,mksfs_root_behaves _ (by decide) (by decide) hmk⟩

end OS161.Sfs
