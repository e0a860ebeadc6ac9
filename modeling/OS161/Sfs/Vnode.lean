import OS161.Lib.CString
import OS161.Sfs.Fs

namespace OS161.Sfs

open Bytes (load32 store32)

def namelen : Nat := 60

def dirsize : Nat := 64

def noino : Nat := 0

def rootLocation : Nat := 1

structure Find where
  found : Bool
  ino : Nat
  slot : Int
  emptyslot : Int
  deriving DecidableEq, Repr

def dirent (ino : Nat) (name : CString) : Mem := CString.poke (store32 zeros 0 ino) 4 name

section
variable (cur : Curthread)

def readdir (fs : Fs) (sv : Sv) (slot : Int) : Kern (Except Errno Mem × Fs × Sv) := do
  let actualpos := offT (u32 (slot * dirsize))
  match ← io cur fs sv (mkKuio zeros dirsize actualpos .read) with
  | (some e, fs, sv, _) => .ok (.error e, fs, sv)
  | (none, fs, sv, ku) =>
    if ku.resid > 0 then .error (.panic "sfs: readdir: Short entry (inode %u)\n")
    else .ok (.ok ku.iovBuf, fs, sv)

def writedir (fs : Fs) (sv : Sv) (sd : Mem) (slot : Int) : Kern (Option Errno × Fs × Sv) := do
  assert (slot ≥ 0) "slot>=0"
  let actualpos := offT (u32 (slot * dirsize))
  match ← io cur fs sv (mkKuio sd dirsize actualpos .write) with
  | (some e, fs, sv, _) => .ok (some e, fs, sv)
  | (none, fs, sv, ku) =>
    if ku.resid > 0 then .error (.panic "sfs: writedir: Short write (ino %u)\n")
    else .ok (none, fs, sv)

def dirNentries (sv : Sv) : Kern Nat := do
  assert (sv.inode.type = typeDir) "sv->sv_i.sfi_type == SFS_TYPE_DIR"
  let size := offT sv.inode.size
  if u32 size % dirsize ≠ 0 then .error (.panic "sfs: directory %u: Invalid size %u\n")
  else .ok (u32 size / dirsize)

def findLoop (name : CString) :
    Nat → Nat → Find → Fs → Sv → Kern (Except Errno Find × Fs × Sv)
  | 0, _, f, fs, sv => .ok (.ok f, fs, sv)
  | left + 1, i, f, fs, sv => do
    match ← readdir cur fs sv i with
    | (.error e, fs, sv) => .ok (.error e, fs, sv)
    | (.ok tsd, fs, sv) =>
      if load32 tsd 0 = noino then findLoop name left (i + 1) { f with emptyslot := i } fs sv
      else if CString.read tsd 4 (namelen - 1) = name then do
        assert (f.found = false) "found==0"
        findLoop name left (i + 1) { f with found := true, slot := i, ino := load32 tsd 0 } fs sv
      else findLoop name left (i + 1) f fs sv

def dirFindname (fs : Fs) (sv : Sv) (name : CString) :
    Kern (Option Errno × Find × Fs × Sv) := do
  let nentries ← dirNentries sv
  let start : Find := ⟨false, 0, -1, -1⟩
  match ← findLoop cur name nentries 0 start fs sv with
  | (.error e, fs, sv) => .ok (some e, start, fs, sv)
  | (.ok f, fs, sv) => .ok (if f.found then none else some .enoent, f, fs, sv)

def dirInsert (fs : Fs) (sv : Sv) (name : CString) (ino : Nat) (emptyslot : Int) :
    Kern (Option Errno × Int × Fs × Sv) := do
  let (result, fs, sv) ← writedir cur fs sv (dirent ino name) emptyslot
  .ok (result, emptyslot, fs, sv)

def dirLink (fs : Fs) (sv : Sv) (name : CString) (ino : Nat) :
    Kern (Option Errno × Int × Fs × Sv) := do
  match ← dirFindname cur fs sv name with
  | (none, _, fs, sv) => .ok (some .eexist, -1, fs, sv)
  | (some .enoent, f, fs, sv) =>
    if name.bytes.length + 1 > namelen then .ok (some .enametoolong, -1, fs, sv)
    else if f.emptyslot < 0 then do
      let nentries ← dirNentries sv
      dirInsert cur fs sv name ino nentries
    else dirInsert cur fs sv name ino f.emptyslot
  | (some e, _, fs, sv) => .ok (some e, -1, fs, sv)

def dirUnlink (fs : Fs) (sv : Sv) (slot : Int) : Kern (Option Errno × Fs × Sv) :=
  writedir cur fs sv (store32 zeros 0 noino) slot

end

section
variable (cur : Curthread)

def truncDirect (blocklen : Nat) : List (Fin 15) → Fs → Sv → Kern (Fs × Sv)
  | [], fs, sv => .ok (fs, sv)
  | i :: rest, fs, sv =>
    if blocklen ≤ i ∧ sv.inode.direct i ≠ 0 then do
      let fs ← bfree fs (sv.inode.direct i)
      truncDirect blocklen rest fs { sv with
        inode := { sv.inode with direct := Function.update sv.inode.direct i 0 }
        dirty := true }
    else truncDirect blocklen rest fs sv

structure Trimming where
  idbuf : Block
  hasnonzero : Bool
  iddirty : Bool

def truncEntries (blocklen : Nat) : List (Fin 128) → Fs → Trimming → Kern (Fs × Trimming)
  | [], fs, tr => .ok (fs, tr)
  | j :: rest, fs, tr =>
    if blocklen < 15 + j ∧ idEntry tr.idbuf j ≠ 0 then do
      let fs ← bfree fs (idEntry tr.idbuf j)
      truncEntries blocklen rest fs { tr with idbuf := setEntry tr.idbuf j 0, iddirty := true }
    else truncEntries blocklen rest fs
      { tr with hasnonzero := tr.hasnonzero || decide (idEntry tr.idbuf j ≠ 0) }

variable {W : Type} [Device W]

def truncIndirect (w : W) (sv : Sv) (blocklen : Nat) : Kern (Option Errno × W × Sv) :=
  let idblock := sv.inode.indirect
  if blocklen < 15 + 128 - 1 ∧ idblock ≠ 0 then do
    match ← rblock cur w idblock with
    | (some e, _, w) => .ok (some e, w, sv)
    | (none, idbuf, w) => do
      let (fs, tr) ← truncEntries blocklen (List.finRange 128) (Device.fs w) ⟨idbuf, false, false⟩
      if tr.hasnonzero = false then do
        let fs ← bfree fs idblock
        .ok (none, Device.setFs w fs, { sv with
          inode := { sv.inode with indirect := 0 }
          dirty := true })
      else if tr.iddirty then do
        let (result, w) ← wblock cur (Device.setFs w fs) tr.idbuf idblock
        .ok (result, w, sv)
      else .ok (none, Device.setFs w fs, sv)
  else .ok (none, w, sv)

def truncate (w : W) (sv : Sv) (len : Int) : Kern (Option Errno × W × Sv) := do
  let blocklen := u32 ((offT (len + 511)).tdiv 512)
  let (fs, sv) ← truncDirect blocklen (List.finRange 15) (Device.fs w) sv
  match ← truncIndirect cur (Device.setFs w fs) sv blocklen with
  | (some e, w, sv) => .ok (some e, w, sv)
  | (none, w, sv) =>
    .ok (none, w, { sv with inode := { sv.inode with size := u32 len }, dirty := true })

end

end OS161.Sfs
