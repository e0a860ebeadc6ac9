import OS161.Lib.Oracle
import OS161.Sfs.Cut
import OS161.Sfs.FailedWrite

namespace OS161.Sfs

open Oracle

namespace Fault

instance : Feed World (Option Errno) := ⟨World.writes,fun w writes => { w with writes := writes }⟩

section Frugal
variable (cur : Curthread)

theorem lhdOp_frugal (buf : Block) (sector : Nat) (rw : UioRw) :
    Frugal fun w => lhdOp w buf sector rw := by
  rintro ⟨fs,reads,writes⟩ out h
  cases rw with
  | write =>
    cases writes with
    | nil => cases h
    | cons first writes =>
      cases first <;> cases h
      · exact ⟨[none],rfl,fun _ => rfl⟩
      · exact ⟨[some _],rfl,fun _ => rfl⟩
  | read =>
    cases reads with
    | nil => cases h
    | cons first reads =>
      cases first <;> cases h
      · exact ⟨[],rfl,fun _ => rfl⟩
      · exact ⟨[],rfl,fun _ => rfl⟩

theorem lhdIoLoop_frugal (sector k i : Nat) (buf : Block) (uio : Uio) :
    Frugal fun w => lhdIoLoop cur sector k i buf w uio := by
  induction k generalizing i buf uio with
  | zero => exact .ok (fun _ => rfl) (fun _ _ => rfl)
  | succ k ih =>
    unfold lhdIoLoop
    cases uio.rw with
    | write =>
      refine .bind_reads (p := fun _ => uiomove cur buf.toMem sectsize uio) (fun _ _ => rfl) ?_
      rintro ⟨_ | e,ptr,uio⟩
      · refine (lhdOp_frugal _ _ _).bind ?_
        rintro ⟨_ | e,buf,w⟩
        · exact ih _ _ _
        · exact .ok (fun _ => rfl) (fun _ _ => rfl)
      · exact .ok (fun _ => rfl) (fun _ _ => rfl)
    | read =>
      refine (lhdOp_frugal _ _ _).bind ?_
      rintro ⟨_ | e,buf,w⟩
      · refine .bind_reads (p := fun _ => uiomove cur buf.toMem sectsize uio) (fun _ _ => rfl) ?_
        rintro ⟨_ | e,ptr,uio⟩
        · exact ih _ _ _
        · exact .ok (fun _ => rfl) (fun _ _ => rfl)
      · exact .ok (fun _ => rfl) (fun _ _ => rfl)

theorem lhdIo_frugal (uio : Uio) : Frugal fun w => lhdIo cur w uio := by
  unfold lhdIo
  dsimp only
  split
  · exact .ok (fun _ => rfl) (fun _ _ => rfl)
  · rintro w out h
    dsimp only at h ⊢
    split at h
    · cases h
      exact ⟨[],rfl,fun rest => if_pos ‹_›⟩
    · obtain ⟨used,hused,hrest⟩ := lhdIoLoop_frugal cur _ _ _ _ _ w out h
      exact ⟨used,hused,fun rest => (if_neg ‹_›).trans (hrest rest)⟩

theorem sfsRwblockRetry_frugal (retries : Nat) (uio : Uio) :
    Frugal fun w => sfsRwblockRetry (lhdIo cur) retries w uio := by
  induction retries using Nat.strongRecOn generalizing uio with
  | ind retries ih =>
    unfold sfsRwblockRetry
    refine (lhdIo_frugal cur uio).bind ?_
    rintro ⟨r,w,uio⟩
    cases r with
    | none => exact .ok (fun _ => rfl) (fun _ _ => rfl)
    | some e =>
      cases e with
      | einval => exact .error _
      | eio =>
        cases retries with
        | zero => exact .ok (fun _ => rfl) (fun _ _ => rfl)
        | succ retries => exact ih retries (Nat.lt_succ_self _) uio
      | _ => exact .ok (fun _ => rfl) (fun _ _ => rfl)

theorem rwblock_frugal (uio : Uio) : Frugal fun w : World => rwblock cur w uio :=
  sfsRwblockRetry_frugal cur 10 uio

theorem rblock_frugal (block : Nat) : Frugal fun w : World => rblock cur w block :=
  (rwblock_frugal cur _).bind fun _ => .ok (fun _ => rfl) (fun _ _ => rfl)

theorem wblock_frugal (data : Block) (block : Nat) :
    Frugal fun w : World => wblock cur w data block :=
  (rwblock_frugal cur _).bind fun _ => .ok (fun _ => rfl) (fun _ _ => rfl)

theorem balloc_frugal : Frugal fun w : World => balloc cur w := by
  refine .bind_reads (p := fun w : World => bitmapAlloc w.fs) (fun _ _ => rfl) ?_
  rintro ⟨e | diskblock,fs⟩
  · have hfull : Frugal fun w : World => (.ok (.error e, w) : Kern (Except Errno Nat × World)) :=
      .ok (fun _ => rfl) (fun _ _ => rfl)
    exact hfull.comp (m := fun w => { w with fs := fs }) (fun _ => rfl) (fun _ _ => rfl)
  · have hclear : Frugal fun w : World => clearblock cur { w with fs := fs } diskblock :=
      (wblock_frugal cur zeroBlock diskblock).comp (fun _ => rfl) (fun _ _ => rfl)
    dsimp only
    split
    · exact .error _
    · refine hclear.bind ?_
      rintro ⟨_ | e,w⟩
      · exact .ok (fun _ => rfl) (fun _ _ => rfl)
      · exact .ok (fun _ => rfl) (fun _ _ => rfl)

theorem bmapDone_frugal (sv : Sv) (block : Nat) : Frugal fun w : World => bmapDone w sv block := by
  unfold bmapDone
  split
  · refine .bind_reads (p := fun w : World => bused w.fs block) (fun _ _ => rfl) ?_
    rintro (_ | _)
    · exact .error _
    · exact .ok (fun _ => rfl) (fun _ _ => rfl)
  · exact .ok (fun _ => rfl) (fun _ _ => rfl)

theorem bmapDirect_frugal (sv : Sv) (i : Fin 15) (doalloc : Bool) :
    Frugal fun w : World => bmapDirect cur w sv i doalloc := by
  unfold bmapDirect
  split
  · refine (balloc_frugal cur).bind ?_
    rintro ⟨_ | block,w⟩
    · exact .ok (fun _ => rfl) (fun _ _ => rfl)
    · exact bmapDone_frugal _ _
  · exact bmapDone_frugal _ _

theorem bmapEntry_frugal (sv : Sv) (idbuf : Block) (idblock idoff : Nat) (doalloc : Bool) :
    Frugal fun w : World => bmapEntry cur w sv idbuf idblock idoff doalloc := by
  unfold bmapEntry
  split
  · refine (balloc_frugal cur).bind ?_
    rintro ⟨_ | block,w⟩
    · exact .ok (fun _ => rfl) (fun _ _ => rfl)
    · refine (wblock_frugal cur _ _).bind ?_
      rintro ⟨_ | e,w⟩
      · exact bmapDone_frugal _ _
      · exact .ok (fun _ => rfl) (fun _ _ => rfl)
  · exact bmapDone_frugal _ _

theorem bmap_frugal (sv : Sv) (fileblock : Nat) (doalloc : Bool) :
    Frugal fun w : World => bmap cur w sv fileblock doalloc := by
  unfold bmap
  split
  · exact bmapDirect_frugal cur _ _ _
  · dsimp only
    split
    · exact .ok (fun _ => rfl) (fun _ _ => rfl)
    unfold bmapIndirect
    split
    · exact .ok (fun _ => rfl) (fun _ _ => rfl)
    split
    · refine (balloc_frugal cur).bind ?_
      rintro ⟨_ | idblock,w⟩
      · exact .ok (fun _ => rfl) (fun _ _ => rfl)
      · exact bmapEntry_frugal cur _ _ _ _ _
    · refine (rblock_frugal cur _).bind ?_
      rintro ⟨_ | e,idbuf,w⟩
      · exact bmapEntry_frugal cur _ _ _ _ _
      · exact .ok (fun _ => rfl) (fun _ _ => rfl)

theorem partialBuf_frugal (uio : Uio) (diskblock : Nat) :
    Frugal fun w : World => partialBuf cur w uio diskblock := by
  unfold partialBuf
  split
  · refine .bind_reads (p := fun _ => assert _ _) (fun _ _ => rfl) fun _ => ?_
    exact .ok (fun _ => rfl) (fun _ _ => rfl)
  · exact rblock_frugal cur _

theorem partialio_frugal (sv : Sv) (uio : Uio) (skipstart len : Nat) :
    Frugal fun w : World => partialio cur w sv uio skipstart len := by
  refine .bind_reads (p := fun _ => assert _ _) (fun _ _ => rfl) fun _ => ?_
  refine (bmap_frugal cur _ _ _).bind ?_
  rintro ⟨_ | diskblock,w,sv⟩
  · exact .ok (fun _ => rfl) (fun _ _ => rfl)
  refine (partialBuf_frugal cur uio diskblock).bind ?_
  rintro ⟨_ | e,iobuf,w⟩
  · refine .bind_reads (p := fun _ => uiomoveAt cur iobuf.toMem skipstart len uio)
      (fun _ _ => rfl) ?_
    rintro ⟨_ | e,iobuf,uio⟩
    · dsimp only
      cases uio.rw with
      | read => exact .ok (fun _ => rfl) (fun _ _ => rfl)
      | write => exact (wblock_frugal cur _ _).bind fun _ => .ok (fun _ => rfl) (fun _ _ => rfl)
    · exact .ok (fun _ => rfl) (fun _ _ => rfl)
  · exact .ok (fun _ => rfl) (fun _ _ => rfl)

theorem blockio_frugal (sv : Sv) (uio : Uio) : Frugal fun w : World => blockio cur w sv uio := by
  refine (bmap_frugal cur _ _ _).bind ?_
  rintro ⟨_ | diskblock,w,sv⟩
  · exact .ok (fun _ => rfl) (fun _ _ => rfl)
  dsimp only [Holds.set]
  split
  · refine .bind_reads (p := fun _ => assert _ _) (fun _ _ => rfl) fun _ => ?_
    refine .bind_reads (p := fun _ => uiomovezeros cur blocksize uio) (fun _ _ => rfl) fun _ => ?_
    exact .ok (fun _ => rfl) (fun _ _ => rfl)
  · refine .bind_reads (p := fun _ => assert _ _) (fun _ _ => rfl) fun _ => ?_
    exact (rwblock_frugal cur _).bind fun _ => .ok (fun _ => rfl) (fun _ _ => rfl)

theorem ioBlocks_frugal (n : Nat) (sv : Sv) (uio : Uio) :
    Frugal fun w : World => ioBlocks cur n w sv uio := by
  induction n generalizing sv uio with
  | zero => exact .ok (fun _ => rfl) (fun _ _ => rfl)
  | succ n ih =>
    refine (blockio_frugal cur sv uio).bind ?_
    rintro ⟨_ | e,w,sv,uio⟩
    · exact ih _ _
    · exact .ok (fun _ => rfl) (fun _ _ => rfl)

theorem ioTail_frugal (sv : Sv) (uio : Uio) : Frugal fun w : World => ioTail cur w sv uio := by
  unfold ioTail
  split
  · exact .ok (fun _ => rfl) (fun _ _ => rfl)
  refine .bind_reads (p := fun _ => assert _ _) (fun _ _ => rfl) fun _ => ?_
  refine (ioBlocks_frugal cur _ _ _).bind ?_
  rintro ⟨_ | e,w,sv,uio⟩
  · refine .bind_reads (p := fun _ => assert _ _) (fun _ _ => rfl) fun _ => ?_
    split
    · exact partialio_frugal cur _ _ _ _
    · exact .ok (fun _ => rfl) (fun _ _ => rfl)
  · exact .ok (fun _ => rfl) (fun _ _ => rfl)

theorem io_frugal (sv : Sv) (uio : Uio) : Frugal fun w : World => io cur w sv uio := by
  refine .bind_reads (p := fun _ => ioClip sv uio) (fun _ _ => rfl) ?_
  rintro (_ | ⟨extraresid,uio⟩)
  · exact .ok (fun _ => rfl) (fun _ _ => rfl)
  refine Frugal.bind (f := fun w : World => ioBody cur w sv uio) ?_ fun _ =>
    .ok (fun _ => rfl) (fun _ _ => rfl)
  unfold ioBody
  dsimp only
  split
  · refine (partialio_frugal cur _ _ _ _).bind ?_
    rintro ⟨_ | e,w,sv,uio⟩
    · exact ioTail_frugal cur _ _
    · exact .ok (fun _ => rfl) (fun _ _ => rfl)
  · exact ioTail_frugal cur _ _

end Frugal

end Fault

theorem sparse_request {len x : Nat} (cur : Curthread) (hx : x < 2 ^ 31) (hlen : len < 2 ^ 32) :
    Request (· = 1) cur (fun _ => 1) x sparseFs sparseNode sparse
      (mkKuio (fun _ => 1) len x .write) :=
  ⟨sparse_sound,sparse_node,⟨rfl,rfl,rfl,Nat.le_refl len,hlen,hx⟩,fun _ _ => rfl⟩

end OS161.Sfs
