import OS161.Sfs.ReadEnd

namespace OS161.Sfs

open Function

structure ByteFile where
  size : Nat
  byte : Nat → Byte

def ByteFile.write (f : ByteFile) (x : Nat) (d : Nat → Byte) (n : Nat) : ByteFile where
  size := max f.size (x + n)
  byte y := if x ≤ y ∧ y < x + n then d y else f.byte y

-- What the last block holds past the size is no part of the file.
def contents (disk : Nat → Block) (node : Nodes) (k : Nat) : Option ByteFile :=
  (node k).map fun n => ⟨n.size, fun y => if y < n.size then fileByte disk node k y else 0⟩

structure Wellformed (lost : Nat → Prop) (fs : Fs) (node : Nodes) (sv : Sv) : Prop where
  sound : Sound lost fs node
  loaded : node sv.ino = some sv.inode
  size : sv.inode.size < 2 ^ 31

structure Asks (cur : Curthread) (uio : Uio) : Prop where
  ready : uio.ready cur
  nonneg : 0 ≤ uio.offset
  room : uio.resid ≤ uio.iovLen
  ends : uio.offset + uio.resid < 2 ^ 31

def request (cur : Curthread) (fs : Fs) (sv : Sv) (uio : Uio) :
    Kern (Option Errno × Fs × Sv × Uio) :=
  match uio.rw with
  | .read => read cur fs sv uio
  | .write => write cur fs sv uio

-- The prefix of a failed write may be empty, and then nothing has been written.
def ByteFile.wrote (f : ByteFile) (x : Nat) (d : Nat → Byte) (n : Nat) : Option Errno → ByteFile
  | none => f.write x d n
  | some _ => if n = 0 then f else f.write x d n

def Written (f : ByteFile) (x : Nat) (uio : Uio) (r : Option Errno) (uio' : Uio) (f' : ByteFile) :
    Prop :=
  ∃ c ≤ uio.resid, uio' = uio.advance c ∧
    f' = f.wrote x (fun y => uio.iovBuf (uio.iovBase + (y - x))) c r ∧
    (r = none → c = uio.resid) ∧ ∀ e, r = some e → e = .enospc ∨ e = .einval ∧ maxBytes ≤ x + c

def Serves (files : Nat → Option ByteFile) (k : Nat) (uio : Uio) (r : Option Errno) (uio' : Uio)
    (files' : Nat → Option ByteFile) : Prop :=
  ∃ f, files k = some f ∧
    match uio.rw with
    | .read => r = none ∧ files' = files ∧
        uio' = uio.took f.byte uio.offset.toNat (min uio.resid (f.size - uio.offset.toNat))
    | .write => ∃ f', Written f uio.offset.toNat uio r uio' f' ∧
        files' = Function.update files k (some f')

def Follows (cur : Curthread) : List Uio → Fs → Nodes → Sv → Prop
  | [], _, _, _ => True
  | uio :: rest, fs, node, sv => ∃ r fs' sv' uio', request cur fs sv uio = .ok (r, fs', sv', uio') ∧
      Serves (contents fs.disk node) sv.ino uio r uio' (contents fs'.disk (node.put sv')) ∧
      Follows cur rest fs' (node.put sv') sv'

def ReadAdmits (size x len : Nat) : Prop :=
  size ≤ x ∨ len = 0 ∧ x % 512 = 0 ∨ min (x + len) size ≤ maxBytes

structure WriteAdmits (cur : Curthread) (fs : Fs) (node : Nodes) (sv : Sv) (uio : Uio) : Prop where
  blank : ∀ y, sv.inode.size ≤ y → y < uio.offset.toNat → fileByte fs.disk node sv.ino y = 0
  starts : ∀ e fs' sv' uio', request cur fs sv uio = .ok (some e, fs', sv', uio') →
    uio'.resid = uio.resid → uio.offset.toNat ≤ sv.inode.size

def Admits (cur : Curthread) (fs : Fs) (node : Nodes) (sv : Sv) (uio : Uio) : Prop :=
  match uio.rw with
  | .read => ReadAdmits sv.inode.size uio.offset.toNat uio.resid
  | .write => WriteAdmits cur fs node sv uio

def AdmitsAll (cur : Curthread) : List Uio → Fs → Nodes → Sv → Prop
  | [], _, _, _ => True
  | uio :: rest, fs, node, sv => Admits cur fs node sv uio ∧ ∀ r fs' sv' uio',
      request cur fs sv uio = .ok (r, fs', sv', uio') → AdmitsAll cur rest fs' (node.put sv') sv'

theorem wrote_eq_iff (size x c : Nat) (b d : Nat → Byte) (r : Option Errno) :
    (⟨max size (x + c), fun y => if y < max size (x + c) then
        if x ≤ y ∧ y < x + c then d y else b y else 0⟩ : ByteFile) =
      ByteFile.wrote ⟨size, fun y => if y < size then b y else 0⟩ x d c r ↔
    (∀ y, size ≤ y → y < x → b y = 0) ∧ (r ≠ none → c = 0 → x ≤ size) := by
  by_cases hz : r ≠ none ∧ c = 0
  · obtain ⟨hr,rfl⟩ := hz
    obtain ⟨e,rfl⟩ := Option.ne_none_iff_exists'.mp hr
    simp only [ByteFile.wrote,if_true,ByteFile.mk.injEq]
    constructor
    · rintro ⟨hsize,-⟩
      exact ⟨fun y hy hlt => by omega,fun _ _ => by omega⟩
    · rintro ⟨-,hle⟩
      have hle := hle (by simp) trivial
      refine ⟨by omega,funext fun y => ?_⟩
      rw [Nat.add_zero,Nat.max_eq_left hle]
      split
      · exact if_neg (by omega)
      · rfl
  · have hwrote : ByteFile.wrote ⟨size,fun y => if y < size then b y else 0⟩ x d c r =
        ByteFile.write ⟨size,fun y => if y < size then b y else 0⟩ x d c := by
      cases r with
      | none => rfl
      | some e => exact if_neg fun hc => hz ⟨by simp,hc⟩
    rw [hwrote]
    simp only [ByteFile.write,ByteFile.mk.injEq,true_and,funext_iff]
    constructor
    · intro hbytes
      refine ⟨fun y hy hlt => ?_,fun hr hc => absurd ⟨hr,hc⟩ hz⟩
      have hbyte := hbytes y
      rwa [if_pos (by omega),if_neg (by omega),if_neg (by omega),if_neg (by omega)] at hbyte
    · rintro ⟨hblank,-⟩ y
      by_cases hin : x ≤ y ∧ y < x + c
      · rw [if_pos (by omega),if_pos hin,if_pos hin]
      · rw [if_neg hin,if_neg hin]
        by_cases hold : y < size
        · rw [if_pos (by omega),if_pos hold]
        · rw [if_neg hold]
          split
          · exact hblank y (by omega) (by omega)
          · rfl

section Request
variable {cur : Curthread} {lost : Nat → Prop} {fs : Fs} {node : Nodes} {sv : Sv} {uio : Uio}

theorem Asks.at (h : Asks cur uio) : uio.At cur uio.rw uio.offset.toNat := by
  obtain ⟨hready,hpos,hroom,hend⟩ := h
  exact ⟨hready.legal,rfl,(Int.toNat_of_nonneg hpos).symm,hroom,by omega,by omega⟩

theorem request_eq (cur : Curthread) (fs : Fs) (sv : Sv) (uio : Uio) :
    request cur fs sv uio = io cur fs sv uio := by
  unfold request read write
  cases uio.rw <;> rfl

theorem contents_self (hk : node sv.ino = some sv.inode) :
    contents fs.disk node sv.ino = some ⟨sv.inode.size,
      fun y => if y < sv.inode.size then fileByte fs.disk node sv.ino y else 0⟩ := by
  rw [contents,hk,Option.map_some]

theorem io_read_past {x : Nat} (hsize : sv.inode.size < 2 ^ 31) (h : uio.At cur .read x)
    (hx : sv.inode.size ≤ x) : io cur fs sv uio = .ok (none, fs, sv, uio) := by
  have hoff : offT sv.inode.size = sv.inode.size := offT_of_lt (by omega) (by omega)
  unfold io ioClip
  rw [h.rw_eq]
  rw [hoff,h.offset,if_pos (by omega),ok_bind]

section
variable {x : Nat} (h : uio.At cur .read x) (hlt : x < sv.inode.size)
  (hsize : sv.inode.size < 2 ^ 31) (hresid : uio.resid = 0)
include h hlt hsize hresid

theorem io_read_none {r : Option Errno} (hrun : ioBody cur fs sv uio = .ok (r, fs, sv, uio)) :
    io cur fs sv uio = .ok (r, fs, sv, uio) := by
  have hlow := h.low
  have hoff : offT sv.inode.size = sv.inode.size := offT_of_lt (by omega) (by omega)
  have hpos : offT ((x : Int) + (0 : Nat)) = x := by
    rw [Nat.cast_zero,add_zero]
    exact offT_of_lt (by omega) (by omega)
  have hclip : ioClip sv uio = .ok (some (0, uio)) := by
    unfold ioClip
    rw [h.rw_eq]
    rw [hoff,h.offset,hresid,hpos,if_neg (by omega),if_neg (by omega)]
  rw [io_of_body hclip hrun h.rw_eq,hresid]
  exact congrArg (fun u => Except.ok (r,fs,sv,u)) (congrArg (Uio.limit uio) hresid.symm)

theorem io_read_aligned (hx : x % 512 = 0) : io cur fs sv uio = .ok (none, fs, sv, uio) := by
  refine io_read_none h hlt hsize hresid ?_
  dsimp only [ioBody]
  rw [h.blkoff,if_neg (not_not.mpr hx),ioTail,if_pos hresid]

theorem io_read_far (hx : x % 512 ≠ 0) (hfar : maxBytes ≤ x) :
    io cur fs sv uio = .ok (some .einval, fs, sv, uio) := by
  refine io_read_none h hlt hsize hresid ?_
  have hfit : u32 (((x % 512 : Nat) : Int) + (0 : Nat)) ≤ blocksize := by
    have hskip : u32 (((x % 512 : Nat) : Int) + (0 : Nat)) = x % 512 :=
      u32_of_nat (n := x % 512 + 0) (by omega)
    rw [hskip]
    unfold blocksize
    omega
  have hpart : partialio cur fs sv uio (x % 512) 0 = .ok (some .einval, fs, sv, uio) := by
    unfold partialio
    rw [assert_of (decide_eq_true hfit),ok_bind]
    dsimp only
    rw [h.fileblock,bmap_past cur fs sv (Nat.not_lt.mpr hfar),ok_bind]
  dsimp only [ioBody]
  rw [h.blkoff,if_pos hx,hresid,Nat.min_zero,hpart,ok_bind]

end

theorem request_read (h : Wellformed lost fs node sv) (hu : Asks cur uio) (hrw : uio.rw = .read) :
    ∃ r uio', request cur fs sv uio = .ok (r, fs, sv, uio') ∧
      (Serves (contents fs.disk node) sv.ino uio r uio' (contents fs.disk node) ↔
        ReadAdmits sv.inode.size uio.offset.toNat uio.resid) := by
  have hat := hu.at
  have hend := hu.ends
  have hpos := hu.nonneg
  generalize hx : uio.offset.toNat = x at hat
  rw [hrw] at hat
  rw [request_eq]
  unfold Serves ReadAdmits
  rw [contents_self h.loaded,hrw]
  simp only [hx,Option.some.injEq,exists_eq_left']
  by_cases hpast : sv.inode.size ≤ x
  · refine ⟨none,uio,io_read_past h.size hat hpast,iff_of_true ⟨rfl,trivial,?_⟩ (.inl hpast)⟩
    rw [Nat.sub_eq_zero_of_le hpast,Nat.min_zero,Uio.took_zero hat]
  have hlt := Nat.lt_of_not_le hpast
  obtain ⟨r,c,hrun,hm⟩ := @io_read cur lost x fs node sv uio h.sound h.loaded hat
  rw [readLen_clamped h.size hlt (by omega)] at hm
  refine ⟨r,_,hrun,?_⟩
  have hle := hm.le
  constructor
  · rintro ⟨rfl,-,-⟩
    have hall := hm.all rfl
    by_cases hempty : uio.resid = 0
    · by_cases hal : x % 512 = 0
      · exact .inr (.inl ⟨hempty,hal⟩)
      · by_cases hfar : maxBytes ≤ x
        · rw [io_read_far hat hlt h.size hempty hal hfar] at hrun
          cases hrun
        · exact .inr (.inr (by omega))
    · have := hm.reach (by omega)
      exact .inr (.inr (by omega))
  · intro hadmits
    cases r with
    | none =>
      refine ⟨rfl,trivial,?_⟩
      rw [hm.all rfl]
      unfold Uio.took
      rw [Uio.fillAt_congr fun i hi => ?_]
      exact (if_pos (by omega)).symm
    | some e =>
      have hshort := hm.short e rfl
      have hfar : maxBytes ≤ x + c := by
        rcases hm.failed e rfl with ⟨-,hfar⟩ | ⟨-,hnot⟩
        · exact hfar
        · exact absurd hu.ready hnot
      have hempty : uio.resid = 0 ∧ x % 512 = 0 := by
        unfold maxBytes at hfar hadmits
        omega
      rw [io_read_aligned hat hlt h.size hempty.1 hempty.2] at hrun
      cases hrun

structure Wrote (lost : Nat → Prop) (cur : Curthread) (uio : Uio) (x : Nat) (fs : Fs) (node : Nodes)
    (sv : Sv) (r : Option Errno) (c : Nat) (fs' : Fs) (sv' : Sv) : Prop where
  run : request cur fs sv uio = .ok (r, fs', sv', uio.advance c)
  moved : Moved (Refused cur uio) x uio.resid r c
  edits : Edits lost fs node sv fs' sv'
  size : sv'.inode.size = max sv.inode.size (x + c)
  bytes : ∀ y, fileByte fs'.disk (node.put sv') sv.ino y =
    if x ≤ y ∧ y < x + c then uio.iovBuf (uio.iovBase + (y - x)) else fileByte fs.disk node sv.ino y

theorem request_wrote (h : Wellformed lost fs node sv) (hu : Asks cur uio) (hrw : uio.rw = .write) :
    ∃ r c fs' sv', Wrote lost cur uio uio.offset.toNat fs node sv r c fs' sv' := by
  have hat := hu.at
  have hsize := h.size
  generalize uio.offset.toNat = x at hat
  rw [hrw] at hat
  have hfeeds : Feeds cur (fun y => uio.iovBuf (uio.iovBase + (y - x))) x uio :=
    ⟨hat,fun i _ => by rw [Nat.add_sub_cancel_left]⟩
  obtain ⟨r,fs',sv',c,hrun,hw,hm⟩ :=
    @io_write cur lost _ x fs node sv uio h.sound h.loaded hfeeds
  refine ⟨r,c,fs',_,(request_eq ..).trans hrun,hm,hw.toWrites.grow _,?_,fun y => ?_⟩
  · rw [grow_size (by rwa [hw.size]) (hm.low hat.low),hw.size]
  · rw [fileByte_grow,hw.bytes y]

section Wrote
variable {r : Option Errno} {x c last : Nat} {fs' : Fs} {sv' : Sv}
  (hw : Wrote lost cur uio x fs node sv r c fs' sv')
include hw

theorem Wrote.wellformed (h : Wellformed lost fs node sv) (hx : x < 2 ^ 31) :
    Wellformed lost fs' (node.put sv') sv' := by
  have hsize := h.size
  have hlow := hw.moved.low hx
  refine ⟨hw.edits.sound,put_apply ..,?_⟩
  rw [hw.size]
  omega

theorem Wrote.contents :
    contents fs'.disk (node.put sv') = Function.update (contents fs.disk node) sv.ino
      (some ⟨max sv.inode.size (x + c), fun y => if y < max sv.inode.size (x + c) then
        if x ≤ y ∧ y < x + c then uio.iovBuf (uio.iovBase + (y - x))
        else fileByte fs.disk node sv.ino y
      else 0⟩) := by
  have hino := hw.edits.ino
  funext k
  by_cases hk : k = sv.ino
  · subst hk
    rw [update_self,← hino,contents_self (put_apply node _),hino,hw.size]
    simp only [hw.bytes]
  · have hsame : node.put sv' k = node k := by
      rw [Nodes.put,hino,update_of_ne hk]
    rw [update_of_ne hk,Sfs.contents,Sfs.contents,hsame]
    simp only [hw.edits.elsewhere hk]

theorem Wrote.admits_iff (hu : Asks cur uio) (hx : uio.offset.toNat = x) :
    WriteAdmits cur fs node sv uio ↔
      (∀ y, sv.inode.size ≤ y → y < x → fileByte fs.disk node sv.ino y = 0) ∧
        (r ≠ none → c = 0 → x ≤ sv.inode.size) := by
  have hle := hw.moved.le
  constructor
  · rintro ⟨hblank,hstarts⟩
    rw [hx] at hblank hstarts
    refine ⟨hblank,fun hr hc => ?_⟩
    obtain ⟨e,rfl⟩ := Option.ne_none_iff_exists'.mp hr
    refine hstarts e _ _ _ hw.run ?_
    rw [hu.at.resid_advance hle,hc,Nat.sub_zero]
  · rintro ⟨hblank,hstarts⟩
    refine ⟨by rwa [hx],fun e fs₁ sv₁ uio₁ hrun hres => ?_⟩
    have hsame := hw.run.symm.trans hrun
    cases hsame
    rw [hu.at.resid_advance hle] at hres
    rw [hx]
    exact hstarts (by simp) (by omega)

theorem Wrote.serves_iff (h : Wellformed lost fs node sv) (hu : Asks cur uio) (hrw : uio.rw = .write)
    (hx : uio.offset.toNat = x) :
    Serves (Sfs.contents fs.disk node) sv.ino uio r (uio.advance c)
        (Sfs.contents fs'.disk (node.put sv')) ↔ Admits cur fs node sv uio := by
  unfold Serves Admits
  rw [contents_self h.loaded,hrw,hw.contents]
  simp only [hx,Option.some.injEq,exists_eq_left']
  rw [hw.admits_iff hu hx]
  have hle := hw.moved.le
  rw [← wrote_eq_iff _ _ _ _ (fun y => uio.iovBuf (uio.iovBase + (y - x)))]
  constructor
  · rintro ⟨f',⟨c',hc',hadv,rfl,-,-⟩,hfiles⟩
    obtain rfl : c = c' := by
      have hres := congrArg Uio.resid hadv
      rw [hu.at.resid_advance hle,hu.at.resid_advance hc'] at hres
      omega
    have hfile := congrFun hfiles sv.ino
    rw [update_self,update_self] at hfile
    exact Option.some.inj hfile
  · intro heq
    refine ⟨_,⟨c,hle,rfl,heq,hw.moved.all,fun e hr => ?_⟩,rfl⟩
    rcases hw.moved.failed e hr with hfull | hfar | ⟨-,hnot⟩
    · exact .inl hfull
    · exact .inr hfar
    · exact absurd hu.ready hnot

end Wrote

theorem request_serves (h : Wellformed lost fs node sv) (hu : Asks cur uio) :
    ∃ r fs' sv' uio', request cur fs sv uio = .ok (r, fs', sv', uio') ∧
      Wellformed lost fs' (node.put sv') sv' ∧
      (Serves (contents fs.disk node) sv.ino uio r uio' (contents fs'.disk (node.put sv')) ↔
        Admits cur fs node sv uio) := by
  cases hrw : uio.rw with
  | read =>
    obtain ⟨r,uio',hrun,hiff⟩ := request_read h hu hrw
    refine ⟨r,fs,sv,uio',hrun,?_,?_⟩ <;> rw [put_self h.loaded]
    · exact h
    · unfold Admits
      rw [hrw]
      exact hiff
  | write =>
    obtain ⟨r,c,fs',sv',hw⟩ := request_wrote h hu hrw
    exact ⟨r,fs',sv',_,hw.run,hw.wellformed h hu.at.low,hw.serves_iff h hu hrw rfl⟩

end Request

theorem sparse_wellformed : Wellformed (· = 1) sparseFs sparseNode sparse :=
  ⟨sparse_sound,sparse_node,by decide⟩

theorem sparse_byte (y : Nat) : fileByte sparseFs.disk sparseNode sparse.ino y = 0 := by
  unfold fileByte
  cases hslot : fileSlot sparse.ino (y / 512) with
  | none => rfl
  | some o =>
    have hne : o ≠ .indirect 3 := fileSlot_ne_indirect hslot
    cases hheld : held sparseFs.disk sparseNode o with
    | none =>
      dsimp only
      rw [cell,Ledger.cell_of_none hheld,toMem_zeroBlock]
    | some b =>
      have hb := (sparse_held o b).mp hheld
      have hfour : b ≠ 4 := by grind
      dsimp only [sparseFs] at hheld ⊢
      rw [cell,Ledger.cell_of_some hheld,update_of_ne hfour,toMem_zeroBlock]

theorem kernel_asks (cur : Curthread) (rw : UioRw) {len x : Nat} (h : x + len < 2 ^ 31) :
    Asks cur (mkKuio zeros len x rw) :=
  ⟨rfl,Int.natCast_nonneg x,Nat.le_refl len,by dsimp only [mkKuio]; omega⟩

end OS161.Sfs
