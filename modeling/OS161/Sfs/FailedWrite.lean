import OS161.Sfs.Progress

namespace OS161.Sfs

open Simulate (Sim)

namespace Fault

structure Places (lost : Nat → Prop) (d : Nat → Byte) (x : Nat) (w : World) (node : Nodes)
    (sv : Sv) (fb : Nat) (out : Except Errno Nat) (w' : World) (sv' : Sv) : Prop where
  calm : w'.Calm
  fills : Fills lost d x x w.fs node sv w'.fs sv'
  place : ∀ b, out = .ok b → diskBlock w'.fs.disk (node.put sv') sv.ino fb = some b

section
variable {cur : Curthread} {lost : Nat → Prop} {d : Nat → Byte} {x fb : Nat} {w w' : World}
  {node : Nodes} {sv sv' : Sv} {o : Owner} {out : Except Errno Nat}

theorem places_of_sim {p : Kern (Except Errno Nat × World × Sv)}
    {q : Kern (Except Errno Nat × Fs × Sv)} (hsim : Sim Shows p q)
    (ho : fileSlot sv.ino fb = some o)
    (hq : ∃ out fs' sv', q = .ok (out, fs', sv') ∧ Fills lost d x x w.fs node sv fs' sv' ∧
      Mapped (held w.fs.disk node o) (held fs'.disk (node.put sv') o) out)
    (h : p = .ok (out, w', sv')) : Places lost d x w node sv fb out w' sv' := by
  obtain ⟨_,hrun,rfl,hcalm⟩ := hsim _ h
  obtain ⟨_,_,_,hq,hfills,hmap⟩ := hq
  rw [hq] at hrun
  cases hrun
  refine ⟨hcalm,hfills,fun b hb => ?_⟩
  rw [diskBlock,ho,Option.bind_some]
  rcases hmap with ⟨he,-⟩ | ⟨b',hb',hheld⟩
  · cases he.symm.trans hb
  · cases hb'.symm.trans hb
    exact hheld

theorem Places.refuse {e : Errno} (hcalm : w'.Calm) (hfs : w'.fs = w.fs) (hs : Sound lost w.fs node)
    (hk : node sv.ino = some sv.inode) : Places lost d x w node sv fb (.error e) w' sv := by
  refine ⟨hcalm,?_,fun b hb => by cases hb⟩
  rw [hfs]
  exact .refl hs hk

theorem Places.below {b : Nat} (h : Places lost d x w node sv fb (.ok b) w' sv') : fb < 143 :=
  diskBlock_lt (h.place b rfl)

theorem bmapIndirect_sim (hw : w.Calm) (hg : Geometry w.fs) (hz : sv.inode.indirect = 0)
    (idoff : Nat) :
    Sim Shows (bmapIndirect cur w sv idoff true) (bmapIndirect cur w.fs sv idoff true) := by
  unfold bmapIndirect
  have hwrite : ¬ (sv.inode.indirect = 0 ∧ true = false) := fun h => (by cases h.2)
  rw [if_neg hwrite,if_neg hwrite,if_pos hz,if_pos hz]
  refine (balloc_sim hw hg).bind ?_
  rintro ⟨r,w'⟩ out ⟨rfl,hw',hg',-,hnew⟩
  cases r with
  | error e => exact .ok ⟨rfl,hw'⟩
  | ok idblock => exact bmapEntry_sim hw' hg' _ zeroBlock (hnew _ rfl) idoff true

theorem bmapIndirect_places (hw : w.Calm) (hs : Sound lost w.fs node)
    (hk : node sv.ino = some sv.inode) (j : Fin 128)
    (ho : fileSlot sv.ino fb = some (.entry sv.ino j))
    (h : bmapIndirect cur w sv j true = .ok (out, w', sv')) :
    Places lost d x w node sv fb out w' sv' := by
  by_cases hz : sv.inode.indirect = 0
  · exact places_of_sim (bmapIndirect_sim hw hs.toGeometry hz j) ho (bmapIndirect_write hs hk j) h
  · have hi : held w.fs.disk node (.indirect sv.ino) = some sv.inode.indirect := by
      rw [held_indirect hk,ref_of_ne_zero hz]
    unfold bmapIndirect at h
    rw [if_neg (fun h => hz h.1),if_neg hz] at h
    obtain ⟨⟨r,idbuf,w₁⟩,hread,h⟩ := bind_ok h
    obtain ⟨hfs,hwr,hdata⟩ := rblock_read (hs.held_reaches hi) hread
    have hw₁ : w₁.Calm := fun e he => hw e (hwr ▸ he)
    cases r with
    | some e =>
      cases h
      exact .refuse hw₁ hfs hs hk
    | none =>
      obtain rfl := hdata rfl
      rw [← hfs] at h hs hi
      have hp : Places lost d x w₁ node sv fb out w' sv' :=
        places_of_sim (bmapEntry_sim hw₁ hs.toGeometry sv _ (hs.held_reaches hi) _ true) ho
          (bmapEntry_write hs hk hi j) h
      exact ⟨hp.calm,hfs ▸ hp.fills,hp.place⟩

theorem bmap_places (hw : w.Calm) (hs : Sound lost w.fs node) (hk : node sv.ino = some sv.inode)
    (h : bmap cur w sv fb true = .ok (out, w', sv')) :
    Places lost d x w node sv fb out w' sv' := by
  unfold bmap ndirect dbperidb at h
  split at h <;> rename_i hd
  · have ho : fileSlot sv.ino fb = some (.direct sv.ino ⟨fb,hd⟩) := dif_pos hd
    exact places_of_sim (bmapDirect_sim hw hs.toGeometry sv _ true) ho (bmapDirect_write hs hk _) h
  · dsimp only at h
    split at h <;> rename_i hj
    · cases h
      exact .refuse hw rfl hs hk
    · have hj : fb - 15 < 128 := by omega
      have ho : fileSlot sv.ino fb = some (.entry sv.ino ⟨fb - 15,hj⟩) := by
        unfold fileSlot
        rw [dif_neg hd,dif_pos hj]
      rw [Nat.mod_eq_of_lt hj] at h
      exact bmapIndirect_places hw hs hk ⟨fb - 15,hj⟩ ho h

end

structure Stores (lost : Nat → Prop) (d : Nat → Byte) (x len : Nat) (w : World) (node : Nodes)
    (sv : Sv) (result : Option Errno) (w' : World) (sv' : Sv) (c : Nat) : Prop where
  calm : w'.Calm
  fills : Fills lost d x (x + c) w.fs node sv w'.fs sv'
  moved : Moved (fun _ _ => True) x len result c

section
variable {cur : Curthread} {lost : Nat → Prop} {d : Nat → Byte} {x len : Nat} {w w' : World}
  {node : Nodes} {sv sv' : Sv} {uio uio' : Uio} {result : Option Errno}

theorem partialBuf_read {b : Nat} {data : Block} (hs : Sound lost w.fs node) {o : Owner}
    (ho : held w.fs.disk node o = some b) (h : partialBuf cur w uio b = .ok (result, data, w')) :
    w'.fs = w.fs ∧ w'.writes = w.writes ∧ (result = none → data = w.fs.disk b) := by
  unfold partialBuf at h
  rw [if_neg (hs.held_ne_zero ho)] at h
  exact rblock_read (hs.held_reaches ho) h

theorem partialio_stores (hw : w.Calm) (hs : Sound lost w.fs node)
    (hk : node sv.ino = some sv.inode) (hf : Feeds cur d x uio) (hlen : len ≤ uio.resid)
    (hfit : x % 512 + len ≤ 512)
    (h : partialio cur w sv uio (x % 512) len = .ok (result, w', sv', uio')) :
    ∃ c, uio' = uio.advance c ∧ Stores lost d x len w node sv result w' sv' c := by
  have hrw : decide (uio.rw = .write) = true := decide_eq_true hf.rw_eq
  obtain ⟨-,h⟩ := assert_bind_ok h
  rw [hf.fileblock,hrw] at h
  obtain ⟨⟨out,w₁,sv₁⟩,hmap,h⟩ := bind_ok h
  have hp : Places lost d x w node sv (x / 512) out w₁ sv₁ := bmap_places hw hs hk hmap
  cases out with
  | error e =>
    cases h
    exact ⟨0,hf.advance_zero.symm,hp.calm,hp.fills,.refuse trivial⟩
  | ok b =>
    obtain ⟨o,ho,hb⟩ := Option.bind_eq_some_iff.mp (hp.place b rfl)
    have hreach := hp.fills.sound.held_reaches hb
    obtain ⟨⟨r₁,iobuf,w₂⟩,hread,h⟩ := bind_ok h
    obtain ⟨hfs,hwr,hdata⟩ := partialBuf_read hp.fills.sound hb hread
    have hw₂ : w₂.Calm := fun e he => hp.calm e (hwr ▸ he)
    have hfills : Fills lost d x x w.fs node sv w₂.fs sv₁ := hfs ▸ hp.fills
    cases r₁ with
    | some e =>
      cases h
      exact ⟨0,hf.advance_zero.symm,hw₂,hfills,.refuse trivial⟩
    | none =>
      obtain rfl := hdata rfl
      rcases hf.move_write (w₁.fs.disk b).toMem (x % 512) hlen with hmv | ⟨-,hmv⟩
      · have hslot : fileSlot sv₁.ino (x / 512) = some o := hp.fills.ino ▸ ho
        have hdat := hf.fills_part hp.fills.sound (put_apply node sv₁) hslot hb hlen hfit
        have hadv : (uio.advance len).rw = .write := hf.rw_eq
        dsimp only at h
        rw [hmv,ok_bind] at h
        dsimp only at h
        rw [hadv] at h
        obtain ⟨⟨r₃,w₃⟩,hwb,h⟩ := bind_ok h
        obtain ⟨hr₃,hfs₃,hw₃⟩ := wblock_calm hw₂ (hfs ▸ hreach) hwb
        cases h
        rw [hfs] at hfs₃
        refine ⟨len,rfl,hw₃,?_,?_⟩
        · rw [hfs₃]
          exact hp.fills.trans hdat (Nat.le_refl _) (Nat.le_add_right _ _)
        · rw [hr₃]
          exact .done fun _ => by
            have hfb := hp.below
            unfold maxBytes
            omega
      · dsimp only at h
        rw [hmv,ok_bind] at h
        cases h
        exact ⟨0,hf.advance_zero.symm,hw₂,hfills,.refuse trivial⟩

theorem blockio_stores (hw : w.Calm) (hs : Sound lost w.fs node)
    (hk : node sv.ino = some sv.inode) (hf : Feeds cur d x uio) (hlen : 512 ≤ uio.resid)
    (halign : x % 512 = 0) (h : blockio cur w sv uio = .ok (result, w', sv', uio')) :
    ∃ c, uio' = uio.advance c ∧ Stores lost d x 512 w node sv result w' sv' c := by
  have hrw : decide (uio.rw = .write) = true := decide_eq_true hf.rw_eq
  unfold blockio at h
  rw [hf.fileblock,hrw] at h
  obtain ⟨⟨out,w₁,sv₁⟩,hmap,h⟩ := bind_ok h
  have hp : Places lost d x w node sv (x / 512) out w₁ sv₁ := bmap_places hw hs hk hmap
  cases out with
  | error e =>
    cases h
    exact ⟨0,hf.advance_zero.symm,hp.calm,hp.fills,.refuse trivial⟩
  | ok b =>
    obtain ⟨o,ho,hb⟩ := Option.bind_eq_some_iff.mp (hp.place b rfl)
    have hreach := hp.fills.sound.held_reaches hb
    have hslot : fileSlot sv₁.ino (x / 512) = some o := hp.fills.ino ▸ ho
    have hdat := hf.fills_block hp.fills.sound (put_apply node sv₁) hslot hb hlen halign
    have hleg : (Uio.aim uio (b * 512)).legal cur := hf.legal
    dsimp only at h
    rw [if_neg (hp.fills.sound.held_ne_zero hb)] at h
    obtain ⟨-,h⟩ := assert_bind_ok h
    rw [diskoff_eq hreach.small] at h
    obtain ⟨⟨r₁,w₂,uio₁⟩,hio,h⟩ := bind_ok h
    have hstep := rwblock_calm hp.calm hreach hleg hf.rw_eq rfl rfl (Nat.le_trans hlen hf.room) hio
    have hout := Except.ok.inj h
    simp only [Prod.mk.injEq] at hout
    obtain ⟨rfl,rfl,rfl,hback⟩ := hout
    rcases hstep with ⟨hcalm,⟨rfl,hfs,rfl⟩ | ⟨-,rfl,hfs,rfl⟩⟩
    · refine ⟨512,hback.symm.trans (restore_advance uio (b * 512)),hcalm,?_,.done fun _ => ?_⟩
      · rw [hfs]
        exact hp.fills.trans hdat (Nat.le_refl _) (Nat.le_add_right _ _)
      · have hfb := hp.below
        unfold maxBytes
        omega
    · have hsame := (restore_aim hf.toAt (b * 512)).trans hf.advance_zero.symm
      refine ⟨0,hback.symm.trans hsame,hcalm,?_,.refuse trivial⟩
      rw [hfs]
      exact hp.fills

end

structure Stage (cur : Curthread) (lost : Nat → Prop) (d : Nat → Byte) (x : Nat) (fs : Fs)
    (node : Nodes) (sv : Sv) (uio : Uio) (y : Nat) (w : World) (sv' : Sv) (uio' : Uio) : Prop
    extends FillStage cur lost d x fs node sv uio y w.fs sv' uio' where
  calm : w.Calm

section Run
variable {cur : Curthread} {lost : Nat → Prop} {d : Nat → Byte} {x y len : Nat} {fs : Fs}
  {node : Nodes} {sv sv₁ sv₂ : Sv} {uio uio₁ uio₂ : Uio} {w₁ w₂ : World} {result : Option Errno}
  (hf : Feeds cur d x uio)
include hf

section
variable (h : Stage cur lost d x fs node sv uio y w₁ sv₁ uio₁)
include h

theorem Stage.next {c : Nat} (hlen : len ≤ uio₁.resid)
    (hst : Stores lost d y len w₁ (node.put sv₁) sv₁ result w₂ sv₂ c) :
    Stage cur lost d x fs node sv uio (y + c) w₂ sv₂ (uio₁.advance c) :=
  ⟨h.toFillStage.next hf hst.fills hst.moved hlen,hst.calm⟩

theorem Stage.partialio (hlen : len ≤ uio₁.resid) (hfit : y % 512 + len ≤ 512)
    (hrun : partialio cur w₁ sv₁ uio₁ (y % 512) len = .ok (result, w₂, sv₂, uio₂)) :
    ∃ c, Stage cur lost d x fs node sv uio (y + c) w₂ sv₂ uio₂ ∧ (result = none → c = len) := by
  obtain ⟨c,rfl,hst⟩ :=
    partialio_stores h.calm h.writes.sound (put_apply node sv₁) h.feeds hlen hfit hrun
  exact ⟨c,h.next hf hlen hst,hst.moved.all⟩

theorem Stage.blockio (hlen : 512 ≤ uio₁.resid) (halign : y % 512 = 0)
    (hrun : blockio cur w₁ sv₁ uio₁ = .ok (result, w₂, sv₂, uio₂)) :
    ∃ c, Stage cur lost d x fs node sv uio (y + c) w₂ sv₂ uio₂ ∧ (result = none → c = 512) := by
  obtain ⟨c,rfl,hst⟩ :=
    blockio_stores h.calm h.writes.sound (put_apply node sv₁) h.feeds hlen halign hrun
  exact ⟨c,h.next hf hlen hst,hst.moved.all⟩

end

theorem stage_carries : Carries cur (Stage cur lost d x fs node sv uio) := by
  have hres {y z : Nat} {w₁ w₂ : World} {sv₁ sv₂ : Sv} {uio₁ uio₂ : Uio}
      (h₁ : Stage cur lost d x fs node sv uio y w₁ sv₁ uio₁)
      (h₂ : Stage cur lost d x fs node sv uio (y + z) w₂ sv₂ uio₂) :
      uio₂.resid + z = uio₁.resid := by
    obtain ⟨c₁,hc₁,rfl,rfl⟩ := h₁.moved
    obtain ⟨c₂,hc₂,heq,rfl⟩ := h₂.moved
    rw [hf.resid_advance hc₁,hf.resid_advance hc₂]
    omega
  refine ⟨fun _ _ _ _ h => ⟨h.feeds.offset,h.feeds.low,h.feeds.word⟩,
    fun _ _ _ _ _ _ _ _ _ h hlen hfit hrun => ?_,fun _ _ _ _ _ _ _ _ h hlen halign hrun => ?_⟩
  · obtain ⟨c,hc,hall⟩ := h.partialio hf hlen hfit hrun
    exact ⟨c,hc,hres h hc,hall⟩
  · obtain ⟨c,hc,hall⟩ := h.blockio hf hlen halign hrun
    exact ⟨c,hc,hres h hc,hall⟩

end Run

section
variable {cur : Curthread} {lost : Nat → Prop} {d : Nat → Byte} {x : Nat} {w w' : World}
  {node : Nodes} {sv sv' : Sv} {uio uio' : Uio} {result : Option Errno}

theorem body_of_io (hrw : uio.rw = .write) (h : io cur w sv uio = .ok (result, w', sv', uio')) :
    ∃ sv₁ uio₁, ioBody cur w sv uio = .ok (result, w', sv₁, uio₁) := by
  unfold io at h
  rw [ioClip_write sv hrw,ok_bind] at h
  obtain ⟨⟨r,w₁,sv₁,uio₁⟩,hbody,h⟩ := bind_ok h
  cases h
  exact ⟨sv₁,uio₁,hbody⟩

theorem io_fills (hw : w.Calm) (hs : Sound lost w.fs node) (hk : node sv.ino = some sv.inode)
    (hf : Feeds cur d x uio) (h : io cur w sv uio = .ok (result, w', sv', uio')) :
    ∃ sv₁ c, sv' = sv₁.grow ((x + c : Nat) : Int) ∧ uio'.offset = ((x + c : Nat) : Int) ∧
      x + c < 2 ^ 31 ∧ Fills lost d x (x + c) w.fs node sv w'.fs sv₁ := by
  have hstart : Stage cur lost d x w.fs node sv uio x w sv uio :=
    ⟨⟨⟨.refl hs hk,hf,0,Nat.zero_le _,rfl,hf.advance_zero.symm⟩,.refl hs hk⟩,hw⟩
  obtain ⟨sv₁,uio₁,hbody⟩ := body_of_io hf.rw_eq h
  obtain ⟨c,hy,-,-⟩ := (stage_carries hf).ioBody hstart hbody
  have heq := Except.ok.inj (h.symm.trans (io_grows hf.rw_eq hy.feeds.toAt hbody))
  obtain ⟨-,-,hsv,huio⟩ : result = result ∧ w' = w' ∧ sv' = _ ∧ uio' = _ := by
    simpa only [Prod.mk.injEq] using heq
  exact ⟨sv₁,c,hsv,huio ▸ hy.feeds.offset,hy.feeds.low,hy.fills⟩

end

end Fault

def Stored (d : Nat → Byte) (disk : Nat → Block) (node : Nodes) (k p : Nat) : Prop :=
  ∃ b, diskBlock disk node k (p / 512) = some b ∧ (disk b).toMem (p % 512) = d p

structure Honest (d : Nat → Byte) (x : Nat) (node : Nodes) (sv : Sv) (fs' : Fs) (sv' : Sv)
    (uio' : Uio) : Prop where
  counted : ∀ p : Nat, x ≤ p → (p : Int) < uio'.offset →
    Stored d fs'.disk (node.put sv') sv.ino p
  size : sv'.inode.size ≤ sv.inode.size ∨
    ∃ p : Nat, x ≤ p ∧ (p : Int) < uio'.offset ∧
      Stored d fs'.disk (node.put sv') sv.ino p ∧ sv'.inode.size ≤ p + 1

structure Request (lost : Nat → Prop) (cur : Curthread) (d : Nat → Byte) (x : Nat) (fs : Fs)
    (node : Nodes) (sv : Sv) (uio : Uio) : Prop where
  sound : Sound lost fs node
  file : node sv.ino = some sv.inode
  feeds : Feeds cur d x uio

section
variable {cur : Curthread} {lost : Nat → Prop} {d : Nat → Byte} {x c : Nat} {fs fs' : Fs}
  {node : Nodes} {sv sv₁ : Sv}

theorem diskBlock_grow (disk : Nat → Block) (node : Nodes) (sv : Sv) (pos : Int) (k fb : Nat) :
    diskBlock disk (node.put (sv.grow pos)) k fb = diskBlock disk (node.put sv) k fb := by
  unfold Sv.grow
  split
  · unfold diskBlock
    rw [@held_put_put node (sv.resize (u32 pos)) sv rfl rfl rfl]
  · rfl

theorem Fills.stored {lo hi p : Nat} (h : Fills lost d lo hi fs node sv fs' sv₁) (hlo : lo ≤ p)
    (hhi : p < hi) (pos : Int) : Stored d fs'.disk (node.put (sv₁.grow pos)) sv.ino p := by
  obtain ⟨b,hb⟩ := h.mapped p hlo hhi
  refine ⟨b,(diskBlock_grow ..).trans hb,?_⟩
  have hbyte := h.bytes p
  rw [if_pos ⟨hlo,hhi⟩] at hbyte
  obtain ⟨o,ho,hheld⟩ := Option.bind_eq_some_iff.mp hb
  rw [fileByte,ho] at hbyte
  dsimp only at hbyte
  rwa [cell,Ledger.cell_of_some hheld] at hbyte

theorem grow_size_le (hx : x < 2 ^ 31) (hge : 2 ^ 31 ≤ sv.inode.size) :
    (sv.grow x).inode.size ≤ sv.inode.size := by
  unfold Sv.grow
  split
  · dsimp only [Sv.resize]
    rw [u32_of_nat (by omega)]
    omega
  · exact Nat.le_refl _

theorem honest_iff {uio' : Uio} (h : Fills lost d x (x + c) fs node sv fs' sv₁)
    (hlow : x + c < 2 ^ 31) (hoff : uio'.offset = ((x + c : Nat) : Int)) :
    Honest d x node sv fs' (sv₁.grow ((x + c : Nat) : Int)) uio' ↔
      x ≤ sv.inode.size ∨ (x : Int) < uio'.offset := by
  have hsame := h.size
  have hcount : ∀ p : Nat, x ≤ p → (p : Int) < uio'.offset →
      Stored d fs'.disk (node.put (sv₁.grow ((x + c : Nat) : Int))) sv.ino p :=
    fun p hx hp => h.stored hx (by omega) _
  by_cases hbig : 2 ^ 31 ≤ sv.inode.size
  · have hle := @grow_size_le (x + c) sv₁ hlow (by omega)
    refine iff_of_true ⟨hcount,.inl ?_⟩ (.inl ?_)
    · rwa [hsame] at hle
    · omega
  · have hsize : (sv₁.grow ((x + c : Nat) : Int)).inode.size = max sv.inode.size (x + c) := by
      rw [grow_size (by omega) hlow,hsame]
    constructor
    · intro hh
      rcases hh.size with hle | ⟨p,hx,hp,-,-⟩
      · omega
      · exact .inr (by omega)
    · intro hcase
      refine ⟨hcount,?_⟩
      by_cases hin : x + c ≤ sv.inode.size
      · exact .inl (by omega)
      · exact .inr ⟨x + c - 1,by omega,by omega,hcount _ (by omega) (by omega),by omega⟩

theorem Fault.io_honest_iff {w w' : Fault.World} {sv' : Sv} {uio uio' : Uio}
    {result : Option Errno} (hw : w.Calm) (hreq : Request lost cur d x w.fs node sv uio)
    (h : io cur w sv uio = .ok (result, w', sv', uio')) :
    Honest d x node sv w'.fs sv' uio' ↔ x ≤ sv.inode.size ∨ (x : Int) < uio'.offset := by
  obtain ⟨sv₁,c,hsv,hoff,hlow,hfills⟩ :=
    Fault.io_fills hw hreq.sound hreq.file hreq.feeds h
  rw [hsv]
  exact honest_iff hfills hlow hoff

end

end OS161.Sfs
