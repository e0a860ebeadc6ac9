import OS161.Lib.Simulate
import OS161.Sfs.FileIo

namespace OS161.Sfs.Fault

open Simulate (Sim)

-- `reads` and `writes` are the values of lh_result still to come, in order, for the sector reads
-- and the sector writes.
structure World where
  fs : Fs
  reads : List (Option Errno)
  writes : List (Option Errno)

def lhdOp (w : World) (buf : Block) (sector : Nat) :
    UioRw → Kern (Option Errno × Block × World)
  | .write =>
    match w.writes with
    | [] => .error .asleep
    | some e :: writes => .ok (some e, buf, { w with writes := writes })
    | none :: writes => .ok (none, buf, { w with
        fs := { w.fs with disk := Function.update w.fs.disk sector buf }, writes := writes })
  | .read =>
    match w.reads with
    | [] => .error .asleep
    | some e :: reads => .ok (some e, buf, { w with reads := reads })
    | none :: reads => .ok (none, w.fs.disk sector, { w with reads := reads })

section Io
variable (cur : Curthread)

def lhdIoLoop (sector : Nat) : Nat → Nat → Block → World → Uio → Kern (Option Errno × World × Uio)
  | 0, _, _, w, uio => .ok (none, w, uio)
  | k + 1, i, buf, w, uio =>
    match uio.rw with
    | .write => do
      match ← uiomove cur buf.toMem sectsize uio with
      | (some e, _, uio) => .ok (some e, w, uio)
      | (none, ptr, uio) =>
        match ← lhdOp w (Block.ofMem ptr) (u32 (sector + i)) .write with
        | (some e, _, w) => .ok (some e, w, uio)
        | (none, buf, w) => lhdIoLoop sector k (i + 1) buf w uio
    | .read => do
      match ← lhdOp w buf (u32 (sector + i)) .read with
      | (some e, _, w) => .ok (some e, w, uio)
      | (none, buf, w) =>
        match ← uiomove cur buf.toMem sectsize uio with
        | (some e, _, uio) => .ok (some e, w, uio)
        | (none, _, uio) => lhdIoLoop sector k (i + 1) buf w uio

def lhdIo (w : World) (uio : Uio) : Kern (Option Errno × World × Uio) :=
  let sector := ioSector uio.offset
  let sectoff := u32 (uio.offset.tmod 512)
  let len := uio.resid / sectsize
  let lenoff := uio.resid % sectsize
  if sectoff ≠ 0 ∨ lenoff ≠ 0 then .ok (some .einval, w, uio)
  else if lhdRefuses w.fs.dBlocks sector len then .ok (some .einval, w, uio)
  else lhdIoLoop cur sector len 0 zeroBlock w uio

end Io

instance : Device World where
  fs w := w.fs
  setFs w fs := { w with fs := fs }
  rwblock cur w uio := sfsRwblockRetry (lhdIo cur) 10 w uio

theorem rwblock_world (cur : Curthread) (w : World) (uio : Uio) :
    rwblock cur w uio = sfsRwblockRetry (lhdIo cur) 10 w uio := rfl

def World.Calm (w : World) : Prop := ∀ e, some e ∈ w.writes → e = .einval

section Device
variable {cur : Curthread} {w w' : World} {uio uio' : Uio} {r : Option Errno} {b : Nat}

theorem lhdIo_one (hb : w.fs.Reaches b) (hoff : uio.offset = b * 512) (hres : uio.resid = 512) :
    lhdIo cur w uio = lhdIoLoop cur b 1 0 zeroBlock w uio := by
  have hmod : u32 (((b : Int) * 512).tmod 512) = 0 := u32_tmod_of_dvd (Int.dvd_mul_left _ _)
  unfold lhdIo
  simp only [hoff,hres,ioSector_block hb.small,hmod,sectsize]
  rw [if_neg (by decide),show 512 / 512 = 1 from rfl,not_refuses hb]
  rfl

theorem lhdIo_write (hb : w.fs.Reaches b) (hleg : uio.legal cur) (hrw : uio.rw = .write)
    (hoff : uio.offset = b * 512) (hres : uio.resid = 512) (hroom : 512 ≤ uio.iovLen) :
    lhdIo cur w uio = (lhdOp w (Uio.sector uio) b .write >>= fun out =>
        .ok (out.1, out.2.2, uio.advance 512)) ∨
      ¬ uio.ready cur ∧ lhdIo cur w uio = .ok (some .efault, w, uio) := by
  rw [lhdIo_one hb hoff hres,lhdIoLoop,hrw]
  dsimp only [uiomove,sectsize]
  rcases uiomoveAt_write hleg hrw zeroBlock.toMem 0 (by decide) hroom (Nat.le_of_eq hres.symm) with
    hmv | ⟨hnr,hmv⟩
  · rw [hmv,ok_bind]
    dsimp only
    rw [sector_eq,u32_sector hb]
    refine .inl ?_
    cases lhdOp w (Uio.sector uio) b .write with
    | error e => rfl
    | ok out =>
      obtain ⟨r,buf,w'⟩ := out
      cases r <;> rfl
  · exact .inr ⟨hnr,by rw [hmv,ok_bind]⟩

theorem lhdIo_read (hb : w.fs.Reaches b) (hready : uio.ready cur) (hrw : uio.rw = .read)
    (hoff : uio.offset = b * 512) (hres : uio.resid = 512) (hroom : 512 ≤ uio.iovLen) :
    lhdIo cur w uio = (lhdOp w zeroBlock b .read >>= fun out => .ok (out.1, out.2.2,
      if out.1 = none then (uio.fillAt out.2.1.toMem 0 512).advance 512 else uio)) := by
  rw [lhdIo_one hb hoff hres,lhdIoLoop,hrw]
  dsimp only [uiomove,sectsize]
  rw [u32_sector hb]
  cases lhdOp w zeroBlock b .read with
  | error e => rfl
  | ok out =>
    obtain ⟨r,buf,w'⟩ := out
    cases r with
    | some e => rfl
    | none =>
      rw [ok_bind]
      dsimp only
      rw [(uiomoveAt_read hready.legal hrw buf.toMem 0 (by decide) hroom
        (Nat.le_of_eq hres.symm)).resolve_right fun hx => hx.1 hready,ok_bind]
      rfl

theorem rwblock_calm (hw : w.Calm) (hb : w.fs.Reaches b) (hleg : uio.legal cur)
    (hrw : uio.rw = .write) (hoff : uio.offset = b * 512) (hres : uio.resid = 512)
    (hroom : 512 ≤ uio.iovLen) (h : rwblock cur w uio = .ok (r, w', uio')) :
    w'.Calm ∧
      (r = none ∧ w'.fs = w.fs.store b (Uio.sector uio) ∧ uio' = uio.advance 512 ∨
        ¬ uio.ready cur ∧ r = some .efault ∧ w'.fs = w.fs ∧ uio' = uio) := by
  rw [rwblock_world,sfsRwblockRetry] at h
  rcases lhdIo_write hb hleg hrw hoff hres hroom with hio | ⟨hnr,hio⟩
  · rw [hio] at h
    unfold lhdOp at h
    cases hres : w.writes with
    | nil =>
      rw [hres] at h
      cases h
    | cons first writes =>
      rw [hres] at h
      have hmem {a : Option Errno} (ha : a ∈ first :: writes) : a ∈ w.writes := hres ▸ ha
      cases first with
      | some e =>
        obtain rfl := hw e (hmem List.mem_cons_self)
        cases h
      | none =>
        cases h
        exact ⟨fun e he => hw e (hmem (List.mem_cons_of_mem _ he)),.inl ⟨rfl,rfl,rfl⟩⟩
  · rw [hio] at h
    cases h
    exact ⟨hw,.inr ⟨hnr,rfl,rfl,rfl⟩⟩

theorem wblock_calm {data : Block} (hw : w.Calm) (hb : w.fs.Reaches b)
    (h : wblock cur w data b = .ok (r, w')) :
    r = none ∧ w'.fs = w.fs.store b data ∧ w'.Calm := by
  obtain ⟨⟨r₁,w₁,uio₁⟩,hio,h⟩ := bind_ok h
  have hready : (sfsUio data.toMem b .write).ready cur := rfl
  obtain ⟨hcalm,⟨rfl,hfs,-⟩ | ⟨hnr,-⟩⟩ := rwblock_calm hw hb hready.legal rfl
    (sfsUio_offset _ _ hb.small) rfl (Nat.le_refl 512) hio
  · cases h
    exact ⟨rfl,by rw [hfs,sector_sfsUio],hcalm⟩
  · exact absurd hready hnr

theorem rwblockRetry_read {retries : Nat} (hb : w.fs.Reaches b)
    (h : sfsRwblockRetry (lhdIo cur) retries w (sfsUio zeros b .read) = .ok (r, w', uio')) :
    w'.fs = w.fs ∧ w'.writes = w.writes ∧ (r = none →
      uio' = ((sfsUio zeros b .read).fillAt (w.fs.disk b).toMem 0 512).advance 512) := by
  have hready : (sfsUio zeros b .read).ready cur := rfl
  induction retries using Nat.strongRecOn generalizing w with
  | ind retries ih =>
    rw [sfsRwblockRetry,lhdIo_read hb hready rfl (sfsUio_offset _ _ hb.small) rfl (Nat.le_refl 512),
      lhdOp] at h
    cases hres : w.reads with
    | nil =>
      rw [hres] at h
      cases h
    | cons first reads =>
      rw [hres] at h
      cases first with
      | none =>
        cases h
        exact ⟨rfl,rfl,fun _ => rfl⟩
      | some e =>
        cases e with
        | einval => cases h
        | eio =>
          cases retries with
          | zero =>
            cases h
            exact ⟨rfl,rfl,fun hr => by cases hr⟩
          | succ retries => exact @ih retries (Nat.lt_succ_self _) { w with reads := reads } hb h
        | _ =>
          cases h
          exact ⟨rfl,rfl,fun hr => by cases hr⟩

theorem rblock_read {data : Block} (hb : w.fs.Reaches b)
    (h : rblock cur w b = .ok (r, data, w')) :
    w'.fs = w.fs ∧ w'.writes = w.writes ∧ (r = none → data = w.fs.disk b) := by
  obtain ⟨⟨r₁,w₁,uio₁⟩,hio,h⟩ := bind_ok h
  rw [rwblock_world] at hio
  obtain ⟨hfs,hwr,hfill⟩ := rwblockRetry_read hb hio
  cases h
  refine ⟨hfs,hwr,fun hr => ?_⟩
  rw [hfill hr]
  exact filled_block (w.fs.disk b) b

end Device

def Shows {α β : Type} (out : α × World × β) (out' : α × Fs × β) : Prop :=
  out' = (out.1, out.2.1.fs, out.2.2) ∧ out.2.1.Calm

structure Grants (w : World) (out : Except Errno Nat × World) (out' : Except Errno Nat × Fs) :
    Prop where
  same : out' = (out.1, out.2.fs)
  calm : out.2.Calm
  geometry : Geometry out.2.fs
  reach : ∀ b, w.fs.Reaches b → out.2.fs.Reaches b
  fresh : ∀ b, out.1 = .ok b → out.2.fs.Reaches b

section
variable {cur : Curthread} {w : World}

theorem balloc_sim (hw : w.Calm) (hg : Geometry w.fs) :
    Sim (Grants w) (balloc cur w) (balloc cur w.fs) := by
  dsimp only [balloc,Device.fs,Device.setFs]
  rcases bitmapAlloc_cases hg with ⟨hrun,-⟩ | ⟨b,hrun,-⟩
  · rw [hrun]
    exact .ok ⟨rfl,hw,hg,fun _ hb => hb,fun b hb => by cases hb⟩
  · rw [hrun,ok_bind,ok_bind]
    dsimp only
    split
    · exact .error
    · rename_i hlt
      have hb : (w.fs.mark b).Reaches b := hg.mark.reaches (Nat.lt_of_not_le hlt)
      unfold clearblock
      rw [wblock_eq hb,ok_bind]
      rintro ⟨out,w'⟩ h
      obtain ⟨⟨r,w₁⟩,hwb,h⟩ := bind_ok h
      obtain ⟨rfl,hfs,hcalm⟩ := @wblock_calm cur { w with fs := w.fs.mark b } _ _ _ _ hw hb hwb
      have hfs : w₁.fs = w.fs.take b := hfs
      cases h
      refine ⟨_,rfl,by rw [hfs]; rfl,hcalm,hfs ▸ hg.take,fun c hc => ?_,fun c hc => ?_⟩
      · rw [hfs]
        exact ⟨hc.small,hc.lt⟩
      · cases hc
        rw [hfs]
        exact ⟨hb.small,hb.lt⟩

theorem bmapDone_sim (hw : w.Calm) (sv : Sv) (block : Nat) :
    Sim Shows (bmapDone w sv block) (bmapDone w.fs sv block) := by
  dsimp only [bmapDone,Device.fs]
  split
  · refine .bind_same _ fun used => ?_
    cases used with
    | true => exact .ok ⟨rfl,hw⟩
    | false => exact .error
  · exact .ok ⟨rfl,hw⟩

theorem bmapDirect_sim (hw : w.Calm) (hg : Geometry w.fs) (sv : Sv) (i : Fin 15) (doalloc : Bool) :
    Sim Shows (bmapDirect cur w sv i doalloc) (bmapDirect cur w.fs sv i doalloc) := by
  unfold bmapDirect
  split
  · refine (balloc_sim hw hg).bind ?_
    rintro ⟨r,w'⟩ out ⟨rfl,hw',-,-,-⟩
    cases r with
    | error e => exact .ok ⟨rfl,hw'⟩
    | ok block => exact bmapDone_sim hw' _ block
  · exact bmapDone_sim hw sv _

theorem bmapEntry_sim (hw : w.Calm) (hg : Geometry w.fs) (sv : Sv) (idbuf : Block) {idblock : Nat}
    (hid : w.fs.Reaches idblock) (idoff : Nat) (doalloc : Bool) :
    Sim Shows (bmapEntry cur w sv idbuf idblock idoff doalloc)
      (bmapEntry cur w.fs sv idbuf idblock idoff doalloc) := by
  unfold bmapEntry
  split
  · refine (balloc_sim hw hg).bind ?_
    rintro ⟨r,w'⟩ out ⟨rfl,hw',-,hkeep,-⟩
    cases r with
    | error e => exact .ok ⟨rfl,hw'⟩
    | ok block =>
      have hid' : w'.fs.Reaches idblock := hkeep _ hid
      rintro ⟨out,w'',sv''⟩ h
      obtain ⟨⟨r,w₁⟩,hwb,h⟩ := bind_ok h
      obtain ⟨rfl,hfs,hcalm⟩ := wblock_calm hw' hid' hwb
      dsimp only
      rw [wblock_eq hid',ok_bind]
      have hdone := bmapDone_sim hcalm sv block _ h
      rwa [hfs] at hdone
  · exact bmapDone_sim hw sv _

end

end OS161.Sfs.Fault
