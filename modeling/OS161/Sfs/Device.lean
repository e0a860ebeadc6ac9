import OS161.Sfs.Fs

namespace OS161

section
variable {cur : Curthread} {uio : Uio}

def Uio.legal (cur : Curthread) (uio : Uio) : Prop :=
  match uio.segflg with
  | .sysspace => uio.space = none
  | .userspace | .userispace =>
    uio.space = cur.vmspace ∧
      ∀ base size, cur.copyinout base size = none ∨ cur.copyinout base size = some .efault

theorem Uio.ready.legal (h : uio.ready cur) : uio.legal cur := by
  unfold Uio.ready at h
  unfold Uio.legal
  cases hseg : uio.segflg with
  | sysspace => rwa [hseg] at h
  | userspace | userispace =>
    rw [hseg] at h
    exact ⟨h.1,fun base size => .inl (h.2 base size)⟩

theorem uiomoveAt_eq_loop (h : uio.legal cur) (ptr : Mem) (p n : Nat) :
    uiomoveAt cur ptr p n uio = uiomoveLoop cur n ptr p n uio := by
  unfold uiomoveAt
  unfold Uio.legal at h
  cases hseg : uio.segflg with
  | sysspace =>
    rw [hseg] at h
    simp only [h,decide_true,assert_true]
    rfl
  | userspace | userispace =>
    rw [hseg] at h
    simp only [h.1,decide_true,assert_true]
    rfl

theorem copied_of_legal (h : uio.legal cur) (size : Nat) :
    uio.copied cur size = none ∨ ¬ uio.ready cur ∧ uio.copied cur size = some .efault := by
  unfold Uio.legal at h
  unfold Uio.copied Uio.ready
  cases hseg : uio.segflg with
  | sysspace => exact .inl rfl
  | userspace | userispace =>
    rw [hseg] at h
    refine (h.2 uio.iovBase size).imp_right fun hf => ⟨fun hr => ?_,hf⟩
    rw [hr.2] at hf
    cases hf

theorem uiomoveAt_zero (h : uio.legal cur) (ptr : Mem) (p : Nat) :
    uiomoveAt cur ptr p 0 uio = .ok (none, ptr, uio) := by
  rw [uiomoveAt_eq_loop h]
  rfl

def Uio.fillAt (uio : Uio) (ptr : Mem) (p m : Nat) : Uio :=
  { uio with iovBuf := memmove uio.iovBuf uio.iovBase ptr p m }

theorem uiomoveAt_write (h : uio.legal cur) (hw : uio.rw = .write) (ptr : Mem) (p : Nat) {n : Nat}
    (hn : 0 < n) (hl : n ≤ uio.iovLen) (hr : n ≤ uio.resid) :
    uiomoveAt cur ptr p n uio =
        .ok (none, memmove ptr p uio.iovBuf uio.iovBase n, uio.advance n) ∨
      ¬ uio.ready cur ∧ uiomoveAt cur ptr p n uio = .ok (some .efault, ptr, uio) := by
  obtain ⟨m,rfl⟩ : ∃ m, n = m + 1 := ⟨n - 1,by omega⟩
  have hsize : min uio.iovLen (m + 1) = m + 1 := by omega
  rw [uiomoveAt_eq_loop h,uiomoveLoop,if_pos ⟨hn,by omega⟩]
  refine (copied_of_legal h (m + 1)).imp (fun hc => ?_) (fun hc => ⟨hc.1,?_⟩)
  · simp [hsize,hc,hw,uiomoveLoop_stop,Uio.advance]
  · simp [hsize,hc.2]

theorem uiomoveAt_read (h : uio.legal cur) (hw : uio.rw = .read) (ptr : Mem) (p : Nat) {n : Nat}
    (hn : 0 < n) (hl : n ≤ uio.iovLen) (hr : n ≤ uio.resid) :
    uiomoveAt cur ptr p n uio = .ok (none, ptr, (uio.fillAt ptr p n).advance n) ∨
      ¬ uio.ready cur ∧ uiomoveAt cur ptr p n uio = .ok (some .efault, ptr, uio) := by
  obtain ⟨m,rfl⟩ : ∃ m, n = m + 1 := ⟨n - 1,by omega⟩
  have hsize : min uio.iovLen (m + 1) = m + 1 := by omega
  rw [uiomoveAt_eq_loop h,uiomoveLoop,if_pos ⟨hn,by omega⟩]
  refine (copied_of_legal h (m + 1)).imp (fun hc => ?_) (fun hc => ⟨hc.1,?_⟩)
  · simp [hsize,hc,hw,uiomoveLoop_stop,Uio.advance,Uio.fillAt]
  · simp [hsize,hc.2]

end

namespace Sfs

section Device
variable {cur : Curthread} {fs : Fs} {b : Nat}

structure Fs.Reaches (fs : Fs) (b : Nat) : Prop where
  small : b < 2 ^ 22
  lt : b < fs.dBlocks

theorem offT_block (hb : b < 2 ^ 22) : offT (offT b * 512) = b * 512 := by
  have h1 : offT (b : Int) = b := offT_of_lt (by omega) (by omega)
  rw [h1]
  exact offT_of_lt (by omega) (by omega)

theorem ioSector_block (hb : b < 2 ^ 22) : ioSector ((b : Int) * 512) = b := by
  unfold ioSector
  rw [Int.mul_tdiv_cancel _ (by decide)]
  exact u32_of_nat (by omega)

theorem not_refuses (h : fs.Reaches b) : lhdRefuses fs.dBlocks b 1 = false := by
  have h1 := h.small
  have h2 := h.lt
  have hu : u32 ((b : Int) + (1 : Nat)) = b + 1 := u32_of_nat (n := b + 1) (by omega)
  unfold lhdRefuses
  rw [hu]
  exact decide_eq_false (by omega)

theorem rwblock_done {lh : Lhd} {uio uio' : Uio} {result : Option Errno}
    (h : lhdIo cur fs.device uio = .ok (result, lh, uio')) (hi : result ≠ some .einval)
    (he : result ≠ some .eio) :
    rwblock cur fs uio = .ok (result, { fs with disk := lh.disk }, uio') := by
  have hrw : sfsRwblock cur fs.device uio = .ok (result, lh, uio') := retry_done h hi he
  dsimp only [rwblock,Device.rwblock]
  rw [hrw,ok_bind]

variable (cur) in
theorem lhdIo_single {uio : Uio} (h : fs.Reaches b) (hoff : uio.offset = b * 512)
    (hres : uio.resid = 512) :
    lhdIo cur fs.device uio = lhdIoLoop cur b 1 0 fs.device uio := by
  have hb := h.small
  have hmod : u32 (((b : Int) * 512).tmod 512) = 0 := u32_tmod_of_dvd (Int.dvd_mul_left _ _)
  have href : lhdRefuses fs.device.dBlocks b 1 = false := not_refuses h
  unfold lhdIo
  simp only [hoff,hres,ioSector_block hb,hmod,sectsize]
  rw [if_neg (by decide),show 512 / 512 = 1 from rfl,href]
  rfl

theorem u32_sector (h : fs.Reaches b) : u32 ((b : Int) + (0 : Nat)) = b := by
  have h1 := h.small
  exact u32_of_nat (n := b) (by omega)

theorem rwblock_read {uio : Uio} (h : fs.Reaches b) (hleg : uio.legal cur) (hrw : uio.rw = .read)
    (hoff : uio.offset = b * 512) (hres : uio.resid = 512) (hlen : 512 ≤ uio.iovLen) :
    rwblock cur fs uio =
        .ok (none, fs, (uio.fillAt (fs.disk b).toMem 0 512).advance 512) ∨
      ¬ uio.ready cur ∧ rwblock cur fs uio = .ok (some .efault, fs, uio) := by
  have hsec := u32_sector h
  have hio := lhdIo_single cur h hoff hres
  rcases uiomoveAt_read hleg hrw (fs.disk b).toMem 0 (by decide) hlen (Nat.le_of_eq hres.symm) with
    hmv | ⟨hnr,hmv⟩
  · have hloop : lhdIoLoop cur b 1 0 fs.device uio = .ok (none,
        ⟨fs.disk,fs.disk b,fs.dBlocks,[]⟩, (uio.fillAt (fs.disk b).toMem 0 512).advance 512) := by
      simp only [lhdIoLoop,hrw,lhdOp,Fs.device,bind,Except.bind,hsec,uiomove,sectsize]
      rw [show lhdDone [4] = some (none, []) from rfl]
      simp only [hmv]
    rw [hloop] at hio
    exact .inl (rwblock_done hio (by simp) (by simp))
  · have hloop : lhdIoLoop cur b 1 0 fs.device uio = .ok (some .efault,
        ⟨fs.disk,fs.disk b,fs.dBlocks,[]⟩, uio) := by
      simp only [lhdIoLoop,hrw,lhdOp,Fs.device,bind,Except.bind,hsec,uiomove,sectsize]
      rw [show lhdDone [4] = some (none, []) from rfl]
      simp only [hmv]
    rw [hloop] at hio
    exact .inr ⟨hnr,rwblock_done hio (by simp) (by simp)⟩

def Uio.sector (uio : Uio) : Block := Block.ofMem fun i => uio.iovBuf (uio.iovBase + i)

theorem sector_eq (m : Mem) (uio : Uio) :
    Block.ofMem (memmove m 0 uio.iovBuf uio.iovBase 512) = Uio.sector uio := by
  funext i
  simp [Uio.sector,Block.ofMem,memmove]

theorem sector_sfsUio (data : Block) (b : Nat) : Uio.sector (sfsUio data.toMem b .write) = data := by
  funext i
  simp [Uio.sector,sfsUio,mkKuio,Block.ofMem,Block.toMem]

theorem rwblock_write {uio : Uio} (h : fs.Reaches b) (hleg : uio.legal cur)
    (hrw : uio.rw = .write) (hoff : uio.offset = b * 512) (hres : uio.resid = 512)
    (hlen : 512 ≤ uio.iovLen) :
    rwblock cur fs uio = .ok (none,
        { fs with disk := Function.update fs.disk b (Uio.sector uio) }, uio.advance 512) ∨
      ¬ uio.ready cur ∧ rwblock cur fs uio = .ok (some .efault, fs, uio) := by
  have hsec := u32_sector h
  have hio := lhdIo_single cur h hoff hres
  rcases uiomoveAt_write hleg hrw zeroBlock.toMem 0 (by decide) hlen (Nat.le_of_eq hres.symm) with
    hmv | ⟨hnr,hmv⟩
  · have hloop : lhdIoLoop cur b 1 0 fs.device uio = .ok (none,
        ⟨Function.update fs.disk b (Uio.sector uio),Uio.sector uio,fs.dBlocks,[]⟩,
        uio.advance 512) := by
      simp only [lhdIoLoop,hrw,lhdOp,Fs.device,bind,Except.bind,hsec,uiomove,sectsize,hmv]
      rw [show lhdDone [4] = some (none, []) from rfl,sector_eq]
    rw [hloop] at hio
    exact .inl (rwblock_done hio (by simp) (by simp))
  · have hloop : lhdIoLoop cur b 1 0 fs.device uio = .ok (some .efault, fs.device, uio) := by
      simp only [lhdIoLoop,hrw,Fs.device,bind,Except.bind,uiomove,sectsize,hmv]
    rw [hloop] at hio
    exact .inr ⟨hnr,rwblock_done hio (by simp) (by simp)⟩

theorem filled_block (data : Block) (b : Nat) :
    Block.ofMem (((sfsUio zeros b .read).fillAt data.toMem 0 512).advance 512).iovBuf = data := by
  funext i
  simp [Block.ofMem,Uio.advance,Uio.fillAt,sfsUio,mkKuio,memmove,Block.toMem]

theorem sfsUio_offset (data : Mem) (rw : UioRw) (hb : b < 2 ^ 22) :
    (sfsUio data b rw).offset = b * 512 := by
  dsimp only [sfsUio,mkKuio]
  rw [offT_block hb]

theorem rblock_eq (h : fs.Reaches b) : rblock cur fs b = .ok (none, fs.disk b, fs) := by
  have hready : (sfsUio zeros b .read).ready cur := rfl
  have hread := (rwblock_read h hready.legal rfl (sfsUio_offset _ _ h.small) rfl
    (Nat.le_refl 512)).resolve_right fun hx => hx.1 hready
  rw [rblock,hread,ok_bind]
  dsimp only
  rw [filled_block]

theorem wblock_eq (h : fs.Reaches b) (data : Block) :
    wblock cur fs data b = .ok (none, { fs with disk := Function.update fs.disk b data }) := by
  have hready : (sfsUio data.toMem b .write).ready cur := rfl
  have hwrite := (rwblock_write h hready.legal rfl (sfsUio_offset _ _ h.small) rfl
    (Nat.le_refl 512)).resolve_right fun hx => hx.1 hready
  rw [wblock,hwrite,ok_bind,sector_sfsUio]

end Device

end Sfs

end OS161
