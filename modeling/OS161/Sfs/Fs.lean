import OS161.Lib.Bits
import OS161.Lib.Bytes
import OS161.Sfs.BlockIo

namespace OS161.Sfs

open Bytes (load32 store32 byteOf)

def blocksize : Nat := 512

def ndirect : Nat := 15

def dbperidb : Nat := 128

def typeFile : Nat := 1

def typeDir : Nat := 2

structure Inode where
  size : Nat
  type : Nat
  linkcount : Nat
  direct : Fin 15 → Nat
  indirect : Nat
  waste : Fin 440 → Byte

namespace Inode

def toMem (i : Inode) : Mem := fun k =>
  if k < 4 then byteOf i.size (3 - k)
  else if k < 6 then byteOf i.type (5 - k)
  else if k < 8 then byteOf i.linkcount (7 - k)
  else if h : (k - 8) / 4 < 15 then byteOf (i.direct ⟨(k - 8) / 4, h⟩) (3 - (k - 8) % 4)
  else if k < 72 then byteOf i.indirect (71 - k)
  else if h : k - 72 < 440 then i.waste ⟨k - 72, h⟩
  else 0

def toBlock (i : Inode) : Block := Block.ofMem i.toMem

def ofBlock (b : Block) : Inode where
  size := load32 b.toMem 0
  type := Bytes.load16 b.toMem 4
  linkcount := Bytes.load16 b.toMem 6
  direct i := load32 b.toMem (8 + 4 * i)
  indirect := load32 b.toMem 68
  waste i := b.toMem (72 + i)

end Inode

def idEntry (idbuf : Block) (j : Nat) : Nat := load32 idbuf.toMem (4 * j)

def setEntry (idbuf : Block) (j v : Nat) : Block := Block.ofMem (store32 idbuf.toMem (4 * j) v)

def zeroBlock : Block := fun _ => 0

structure Sv where
  ino : Nat
  inode : Inode
  dirty : Bool
  refcount : Nat
  opencount : Nat

structure Fs where
  nblocks : Nat
  freemap : Nat → Nat
  nbits : Nat
  disk : Nat → Block
  dBlocks : Nat
  vnodes : List Sv

def Fs.device (fs : Fs) : Lhd := ⟨fs.disk, zeroBlock, fs.dBlocks, [4]⟩

def bitmapAlloc (fs : Fs) : Kern (Except Errno Nat × Fs) :=
  match Bits.scan 8 fs.freemap ((fs.nbits + 7) / 8) 0 with
  | .full => .ok (.error .enospc, fs)
  | .found ix offset => do
    assert (ix * 8 + offset < fs.nbits) "*index < b->nbits"
    .ok (.ok (ix * 8 + offset), { fs with freemap := Bits.raise fs.freemap ix offset })
  | .stuck => .error (.panic "0")

def bitmapUnmark (fs : Fs) (index : Nat) : Kern Fs := do
  assert (index < fs.nbits) "index < b->nbits"
  assert (Bits.get 8 fs.freemap index) "(b->v[ix] & mask)!=0"
  .ok { fs with freemap := Bits.lower 8 fs.freemap (index / 8) (index % 8) }

-- The routines of sfs_vnode.c reach the device through sfs_rwblock only.
class Device (W : Type) where
  fs : W → Fs
  setFs : W → Fs → W
  rwblock : Curthread → W → Uio → Kern (Option Errno × W × Uio)

instance : Device Fs where
  fs fs := fs
  setFs _ fs := fs
  rwblock cur fs uio := do
    let (result, lh, uio) ← sfsRwblock cur fs.device uio
    .ok (result, { fs with disk := lh.disk }, uio)

section Io
variable {W : Type} [Device W] (cur : Curthread)

def rwblock (w : W) (uio : Uio) : Kern (Option Errno × W × Uio) := Device.rwblock cur w uio

def rblock (w : W) (block : Nat) : Kern (Option Errno × Block × W) := do
  let (result, w, uio) ← rwblock cur w (sfsUio zeros block .read)
  .ok (result, Block.ofMem uio.iovBuf, w)

def wblock (w : W) (data : Block) (block : Nat) : Kern (Option Errno × W) := do
  let (result, w, _) ← rwblock cur w (sfsUio data.toMem block .write)
  .ok (result, w)

def clearblock (w : W) (block : Nat) : Kern (Option Errno × W) := wblock cur w zeroBlock block

def balloc (w : W) : Kern (Except Errno Nat × W) := do
  match ← bitmapAlloc (Device.fs w) with
  | (.error e, fs) => .ok (.error e, Device.setFs w fs)
  | (.ok diskblock, fs) =>
    if diskblock ≥ fs.nblocks then .error (.panic "sfs: balloc: invalid block %u\n")
    else
      match ← clearblock cur (Device.setFs w fs) diskblock with
      | (some e, w) => .ok (.error e, w)
      | (none, w) => .ok (.ok diskblock, w)

def bfree (fs : Fs) (diskblock : Nat) : Kern Fs := bitmapUnmark fs diskblock

def bused (fs : Fs) (diskblock : Nat) : Kern Bool :=
  if diskblock ≥ fs.nblocks then
    .error (.panic "sfs: sfs_bused called on out of range block %u\n")
  else .ok (Bits.get 8 fs.freemap diskblock)

def markedFree : Stop := .panic "sfs: Data block %u (block %u of file %u) marked free\n"

def bmapDone (w : W) (sv : Sv) (block : Nat) : Kern (Except Errno Nat × W × Sv) :=
  if block ≠ 0 then do
    if ← bused (Device.fs w) block then .ok (.ok block, w, sv) else .error markedFree
  else .ok (.ok block, w, sv)

def bmapDirect (w : W) (sv : Sv) (i : Fin 15) (doalloc : Bool) :
    Kern (Except Errno Nat × W × Sv) :=
  if sv.inode.direct i = 0 ∧ doalloc then do
    match ← balloc cur w with
    | (.error e, w) => .ok (.error e, w, sv)
    | (.ok block, w) =>
      bmapDone w { sv with
        inode := { sv.inode with direct := Function.update sv.inode.direct i block }
        dirty := true } block
  else bmapDone w sv (sv.inode.direct i)

def bmapEntry (w : W) (sv : Sv) (idbuf : Block) (idblock idoff : Nat) (doalloc : Bool) :
    Kern (Except Errno Nat × W × Sv) :=
  if idEntry idbuf idoff = 0 ∧ doalloc then do
    match ← balloc cur w with
    | (.error e, w) => .ok (.error e, w, sv)
    | (.ok block, w) =>
      match ← wblock cur w (setEntry idbuf idoff block) idblock with
      | (some e, w) => .ok (.error e, w, sv)
      | (none, w) => bmapDone w sv block
  else bmapDone w sv (idEntry idbuf idoff)

def bmapIndirect (w : W) (sv : Sv) (idoff : Nat) (doalloc : Bool) :
    Kern (Except Errno Nat × W × Sv) :=
  if sv.inode.indirect = 0 ∧ doalloc = false then .ok (.ok 0, w, sv)
  else if sv.inode.indirect = 0 then do
    match ← balloc cur w with
    | (.error e, w) => .ok (.error e, w, sv)
    | (.ok idblock, w) =>
      bmapEntry cur w { sv with inode := { sv.inode with indirect := idblock }, dirty := true }
        zeroBlock idblock idoff doalloc
  else do
    match ← rblock cur w sv.inode.indirect with
    | (some e, _, w) => .ok (.error e, w, sv)
    | (none, idbuf, w) => bmapEntry cur w sv idbuf sv.inode.indirect idoff doalloc

def bmap (w : W) (sv : Sv) (fileblock : Nat) (doalloc : Bool) :
    Kern (Except Errno Nat × W × Sv) :=
  if h : fileblock < 15 then bmapDirect cur w sv ⟨fileblock, h⟩ doalloc
  else
    let fileblock := fileblock - ndirect
    let idnum := fileblock / dbperidb
    let idoff := fileblock % dbperidb
    if idnum > 0 then .ok (.error .einval, w, sv)
    else bmapIndirect cur w sv idoff doalloc

def partialBuf (w : W) (uio : Uio) (diskblock : Nat) : Kern (Option Errno × Block × W) :=
  if diskblock = 0 then do
    assert (uio.rw = .read) "uio->uio_rw == UIO_READ"
    .ok (none, zeroBlock, w)
  else rblock cur w diskblock

def partialio (w : W) (sv : Sv) (uio : Uio) (skipstart len : Nat) :
    Kern (Option Errno × W × Sv × Uio) := do
  assert (u32 (skipstart + len) ≤ blocksize) "skipstart + len <= SFS_BLOCKSIZE"
  let fileblock := u32 (uio.offset.tdiv 512)
  match ← bmap cur w sv fileblock (uio.rw = .write) with
  | (.error e, w, sv) => .ok (some e, w, sv, uio)
  | (.ok diskblock, w, sv) =>
    match ← partialBuf cur w uio diskblock with
    | (some e, _, w) => .ok (some e, w, sv, uio)
    | (none, iobuf, w) =>
      match ← uiomoveAt cur iobuf.toMem skipstart len uio with
      | (some e, _, uio) => .ok (some e, w, sv, uio)
      | (none, iobuf, uio) =>
        match uio.rw with
        | .read => .ok (none, w, sv, uio)
        | .write => do
          let (result, w) ← wblock cur w (Block.ofMem iobuf) diskblock
          .ok (result, w, sv, uio)

def blockio (w : W) (sv : Sv) (uio : Uio) : Kern (Option Errno × W × Sv × Uio) := do
  let fileblock := u32 (uio.offset.tdiv 512)
  match ← bmap cur w sv fileblock (uio.rw = .write) with
  | (.error e, w, sv) => .ok (some e, w, sv, uio)
  | (.ok diskblock, w, sv) =>
    if diskblock = 0 then do
      assert (uio.rw = .read) "uio->uio_rw == UIO_READ"
      let (result, uio) ← uiomovezeros cur blocksize uio
      .ok (result, w, sv, uio)
    else do
      let saveoff := uio.offset
      let diskoff := offT (u32 (diskblock * blocksize))
      assert (uio.resid ≥ blocksize) "uio->uio_resid >= SFS_BLOCKSIZE"
      let saveres := uio.resid
      let (result, w, uio) ← rwblock cur w { uio with offset := diskoff, resid := blocksize }
      .ok (result, w, sv, { uio with
        offset := offT (offT (uio.offset - diskoff) + saveoff)
        resid := u32 (uio.resid - blocksize + saveres) })

def ioBlocks : Nat → W → Sv → Uio → Kern (Option Errno × W × Sv × Uio)
  | 0, w, sv, uio => .ok (none, w, sv, uio)
  | n + 1, w, sv, uio => do
    match ← blockio cur w sv uio with
    | (some e, w, sv, uio) => .ok (some e, w, sv, uio)
    | (none, w, sv, uio) => ioBlocks n w sv uio

def ioTail (w : W) (sv : Sv) (uio : Uio) : Kern (Option Errno × W × Sv × Uio) :=
  if uio.resid = 0 then .ok (none, w, sv, uio)
  else do
    assert (uio.offset.tmod 512 = 0) "uio->uio_offset % SFS_BLOCKSIZE == 0"
    match ← ioBlocks cur (uio.resid / blocksize) w sv uio with
    | (some e, w, sv, uio) => .ok (some e, w, sv, uio)
    | (none, w, sv, uio) => do
      assert (uio.resid < blocksize) "uio->uio_resid < SFS_BLOCKSIZE"
      if uio.resid > 0 then partialio cur w sv uio 0 uio.resid else .ok (none, w, sv, uio)

def ioBody (w : W) (sv : Sv) (uio : Uio) : Kern (Option Errno × W × Sv × Uio) :=
  let blkoff := u32 (uio.offset.tmod 512)
  if blkoff ≠ 0 then do
    let len := min (u32 (blocksize - blkoff)) uio.resid
    match ← partialio cur w sv uio blkoff len with
    | (some e, w, sv, uio) => .ok (some e, w, sv, uio)
    | (none, w, sv, uio) => ioTail cur w sv uio
  else ioTail cur w sv uio

def ioClip (sv : Sv) (uio : Uio) : Kern (Option (Nat × Uio)) :=
  match uio.rw with
  | .write => .ok (some (0, uio))
  | .read =>
    let size := offT sv.inode.size
    let endpos := offT (uio.offset + uio.resid)
    if uio.offset ≥ size then .ok none
    else if endpos > size then do
      let extraresid := u32 (endpos - size)
      assert (uio.resid > extraresid) "uio->uio_resid > extraresid"
      .ok (some (extraresid, { uio with resid := u32 (uio.resid - extraresid) }))
    else .ok (some (0, uio))

def io (w : W) (sv : Sv) (uio : Uio) : Kern (Option Errno × W × Sv × Uio) := do
  match ← ioClip sv uio with
  | none => .ok (none, w, sv, uio)
  | some (extraresid, uio) => do
    let (result, w, sv, uio) ← ioBody cur w sv uio
    let sv :=
      if uio.rw = .write ∧ uio.offset > offT sv.inode.size then
        { sv with inode := { sv.inode with size := u32 uio.offset }, dirty := true }
      else sv
    .ok (result, w, sv, { uio with resid := u32 (uio.resid + extraresid) })

def read (w : W) (sv : Sv) (uio : Uio) : Kern (Option Errno × W × Sv × Uio) := do
  assert (uio.rw = .read) "uio->uio_rw==UIO_READ"
  io cur w sv uio

def write (w : W) (sv : Sv) (uio : Uio) : Kern (Option Errno × W × Sv × Uio) := do
  assert (uio.rw = .write) "uio->uio_rw==UIO_WRITE"
  io cur w sv uio

end Io

end OS161.Sfs
