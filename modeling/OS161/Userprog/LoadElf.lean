import OS161.Sfs.Device
import OS161.Vm.AddrSpace

namespace OS161

section
variable {cur : Curthread} {uio uio' uio'' : Uio} {src : Mem} {m n : Nat}

structure Uio.Filled (uio uio' : Uio) (src : Mem) (m : Nat) : Prop where
  buf : uio'.iovBuf = memmove uio.iovBuf uio.iovBase src 0 m
  base : uio'.iovBase = uio.iovBase + m
  len : uio'.iovLen = uio.iovLen - m
  resid : uio'.resid = uio.resid - m
  segflg : uio'.segflg = uio.segflg
  rw : uio'.rw = uio.rw
  space : uio'.space = uio.space

theorem Uio.Filled.legal (h : uio.Filled uio' src m) (hl : uio.legal cur) : uio'.legal cur := by
  unfold Uio.legal at hl ⊢
  rw [h.segflg,h.space]
  exact hl

theorem uiomove_filled (hl : uio.legal cur) (hrw : uio.rw = .read) (hm : m ≤ uio.iovLen)
    (hr : m ≤ uio.resid) (h32 : uio.resid < 2 ^ 32) :
    (∃ uio', uiomove cur src m uio = .ok (none, src, uio') ∧ uio.Filled uio' src m) ∨
      ¬ uio.ready cur ∧ uiomove cur src m uio = .ok (some .efault, src, uio) := by
  rcases Nat.eq_zero_or_pos m with rfl | hpos
  · refine .inl ⟨uio,uiomoveAt_zero hl src 0,?_⟩
    exact ⟨(memmove_zero _ _ _ _).symm,rfl,rfl,rfl,rfl,rfl,rfl⟩
  · refine (uiomoveAt_read hl hrw src 0 hpos hm hr).imp_left fun h => ⟨_,h,?_⟩
    refine ⟨rfl,rfl,rfl,?_,rfl,rfl,rfl⟩
    show u32 ((uio.resid : Int) - m) = uio.resid - m
    rw [← Nat.cast_sub hr,u32_of_nat (by omega)]

theorem Uio.Filled.trans_zeros (h : uio.Filled uio' zeros m) (h' : uio'.Filled uio'' zeros n) :
    uio.Filled uio'' zeros (m + n) where
  buf := by
    rw [h'.buf,h.buf,h.base]
    funext k
    simp only [memmove,zeros]
    by_cases h1 : uio.iovBase + m ≤ k ∧ k < uio.iovBase + m + n
    · rw [if_pos h1,if_pos (by omega)]
    · rw [if_neg h1]
      by_cases h2 : uio.iovBase ≤ k ∧ k < uio.iovBase + m
      · rw [if_pos h2,if_pos (by omega)]
      · rw [if_neg h2,if_neg (by omega)]
  base := by rw [h'.base,h.base,Nat.add_assoc]
  len := by rw [h'.len,h.len,Nat.sub_sub]
  resid := by rw [h'.resid,h.resid,Nat.sub_sub]
  segflg := h'.segflg.trans h.segflg
  rw := h'.rw.trans h.rw
  space := h'.space.trans h.space

theorem uiomovezerosLoop_filled (fuel : Nat) :
    ∀ n uio, n ≤ fuel → uio.legal cur → uio.rw = .read → n ≤ uio.iovLen → n ≤ uio.resid →
      uio.resid < 2 ^ 32 →
      (∃ uio', uiomovezerosLoop cur fuel n uio = .ok (none, uio') ∧ uio.Filled uio' zeros n) ∨
        ∃ uio', uiomovezerosLoop cur fuel n uio = .ok (some .efault, uio') := by
  induction fuel with
  | zero =>
    intro n uio hn hl _ _ _ _
    obtain rfl : n = 0 := by omega
    exact .inl ⟨uio,rfl,(memmove_zero _ _ _ _).symm,rfl,rfl,rfl,rfl,rfl,rfl⟩
  | succ fuel ih =>
    intro n uio hn hl hrw hlen hr h32
    rw [uiomovezerosLoop]
    split
    case isFalse h0 =>
      obtain rfl : n = 0 := by omega
      exact .inl ⟨uio,rfl,(memmove_zero _ _ _ _).symm,rfl,rfl,rfl,rfl,rfl,rfl⟩
    case isTrue h0 =>
      have hmin : min 16 n ≤ n := Nat.min_le_right 16 n
      dsimp only
      rcases uiomove_filled hl hrw (hmin.trans hlen) (hmin.trans hr) h32 with
        ⟨uio',he,hf⟩ | ⟨-,he⟩
      · rw [he,ok_bind]
        have hnext := ih (n - min 16 n) uio' (by omega) (hf.legal hl) (hf.rw.trans hrw)
          (by rw [hf.len]; omega) (by rw [hf.resid]; omega) (by rw [hf.resid]; omega)
        refine hnext.imp_left fun ⟨uio'',he',hf'⟩ => ⟨uio'',he',?_⟩
        have hsum : min 16 n + (n - min 16 n) = n := by omega
        exact hsum ▸ hf.trans_zeros hf'
      · rw [he,ok_bind]
        exact .inr ⟨_,rfl⟩

theorem uiomovezeros_filled (hl : uio.legal cur) (hrw : uio.rw = .read) (hn : n ≤ uio.iovLen)
    (hr : n ≤ uio.resid) (h32 : uio.resid < 2 ^ 32) :
    (∃ uio', uiomovezeros cur n uio = .ok (none, uio') ∧ uio.Filled uio' zeros n) ∨
      ∃ uio', uiomovezeros cur n uio = .ok (some .efault, uio') := by
  unfold uiomovezeros
  rw [hrw,assert_of (by rfl),ok_bind]
  exact uiomovezerosLoop_filled n n uio le_rfl hl hrw hn hr h32

end

namespace Elf

open Bytes (load16 load32)

def elfNident : Nat := 16

def sizeofEhdr : Nat := 52

def sizeofPhdr : Nat := 32

structure Ehdr where
  ident : Nat → Byte
  type : Nat
  machine : Nat
  version : Nat
  entry : Nat
  phoff : Nat
  phentsize : Nat
  phnum : Nat

structure Phdr where
  type : Nat
  offset : Nat
  vaddr : Nat
  filesz : Nat
  memsz : Nat
  flags : Nat
  deriving DecidableEq, Repr

def Ehdr.ofMem (m : Mem) : Ehdr where
  ident i := if i < elfNident then m i else 0
  type := load16 m 16
  machine := load16 m 18
  version := load32 m 20
  entry := load32 m 24
  phoff := load32 m 28
  phentsize := load16 m 42
  phnum := load16 m 44

def Phdr.ofMem (m : Mem) : Phdr where
  type := load32 m 0
  offset := load32 m 4
  vaddr := load32 m 8
  filesz := load32 m 16
  memsz := load32 m 20
  flags := load32 m 24

def etExec : Nat := 2

def emMips : Nat := 8

def evCurrent : Nat := 1

def Ehdr.Identified (eh : Ehdr) : Prop :=
  eh.ident 0 = 0x7f ∧ eh.ident 1 = 'E'.toUInt8 ∧ eh.ident 2 = 'L'.toUInt8 ∧
    eh.ident 3 = 'F'.toUInt8 ∧ eh.ident 4 = 1 ∧ eh.ident 5 = 2 ∧
    eh.ident 6 = UInt8.ofNat evCurrent ∧ eh.version = evCurrent ∧ eh.type = etExec ∧
    eh.machine = emMips

instance (eh : Ehdr) : Decidable eh.Identified := by
  unfold Ehdr.Identified
  infer_instance

def ptNull : Nat := 0

def ptLoad : Nat := 1

def ptPhdr : Nat := 6

def ptMipsReginfo : Nat := 0x70000000

def Phdr.executable (ph : Phdr) : Bool := ph.flags % 2 = 1

def copycheck (userptr len : Nat) : Option Errno × Nat :=
  let top := u32 ((userptr : Int) + len - 1)
  if top < userptr then (some .efault, len)
  else if usertop ≤ userptr then (some .efault, len)
  else if usertop ≤ top then (none, usertop - userptr)
  else (none, len)

-- User memory is a byte map here: the copy itself never faults.
def copyout (userptr len : Nat) : Option Errno :=
  match copycheck userptr len with
  | (some e, _) => some e
  | (none, stoplen) => if stoplen ≠ len then some .efault else none

def loader (as : Nat) : Curthread := ⟨some as, copyout⟩

def bytesFrom (file : List Byte) (pos : Nat) : Mem := fun k => file.getD (pos + k) 0

section
variable (cur : Curthread) (file : List Byte)

def vopRead (uio : Uio) : Kern (Option Errno × Uio) :=
  if uio.offset < 0 then .ok (some .einval, uio)
  else do
    let pos := uio.offset.toNat
    let avail := min uio.resid (file.length - pos)
    let (result, _, uio) ← uiomove cur (bytesFrom file pos) avail uio
    .ok (result, uio)

-- `short` records that some read returned 0 with bytes still owed.
structure Loading where
  mem : Mem
  space : AddrSpace
  entrypoint : Nat
  short : Bool

def Loading.saw (st : Loading) (result : Option Errno) (uio : Uio) : Loading :=
  { st with short := st.short || decide (result = none ∧ uio.resid ≠ 0) }

def readHdr (len : Nat) (pos : Int) (st : Loading) : Kern (Option Errno × Uio × Loading) := do
  let (result, ku) ← vopRead cur file (mkKuio zeros len pos .read)
  .ok (result, ku, st.saw result ku)

inductive PhdrRead where
  | failed (e : Errno)
  | skip
  | load (ph : Phdr)
  deriving DecidableEq, Repr

def Phdr.classify (ph : Phdr) : PhdrRead :=
  if ph.type = ptNull then .skip
  else if ph.type = ptPhdr then .skip
  else if ph.type = ptMipsReginfo then .skip
  else if ph.type = ptLoad then .load ph
  else .failed .enoexec

def nextPhdr (eh : Ehdr) (i : Nat) (st : Loading) : Kern (PhdrRead × Loading) := do
  let offset := offT (u32 ((eh.phoff : Int) + (i : Int) * eh.phentsize))
  match ← readHdr cur file sizeofPhdr offset st with
  | (some e, _, st) => .ok (.failed e, st)
  | (none, ku, st) =>
    if ku.resid ≠ 0 then .ok (.failed .enoexec, st)
    else .ok ((Phdr.ofMem ku.iovBuf).classify, st)

def segmentUio (ph : Phdr) (filesize : Nat) (mem : Mem) : Uio where
  iovBuf := mem
  iovBase := ph.vaddr
  iovLen := ph.memsz
  resid := filesize
  offset := offT ph.offset
  segflg := if ph.executable then .userispace else .userspace
  rw := .read
  space := cur.vmspace

def loadSegment (ph : Phdr) (st : Loading) : Kern (Option Errno × Loading) := do
  let filesize := if ph.memsz < ph.filesz then ph.memsz else ph.filesz
  let (result, u) ← vopRead cur file (segmentUio cur ph filesize st.mem)
  let st := { st.saw result u with mem := u.iovBuf }
  match result with
  | some e => .ok (some e, st)
  | none =>
    if u.resid ≠ 0 then .ok (some .enoexec, st)
    else
      let fillamt := u32 ((ph.memsz : Int) - filesize)
      if 0 < fillamt then do
        let (result, u) ← uiomovezeros cur fillamt { u with resid := u32 (u.resid + fillamt) }
        .ok (result, { st with mem := u.iovBuf })
      else .ok (none, st)

def defineRegions (eh : Ehdr) : Nat → Nat → Nat → Loading → Kern (Option Errno × Loading)
  | 0, _, _, st => .ok (none, st)
  | left + 1, i, iteration, st => do
    match ← nextPhdr cur file eh i st with
    | (.failed e, st) => .ok (some e, st)
    | (.skip, st) => defineRegions eh left (i + 1) iteration st
    | (.load ph, st) =>
      match asDefineRegion st.space ph.vaddr ph.memsz iteration with
      | (some e, space) => .ok (some e, { st with space := space })
      | (none, space) =>
        defineRegions eh left (i + 1) (iteration + 1) { st with space := space }

def loadSegments (eh : Ehdr) : Nat → Nat → Loading → Kern (Option Errno × Loading)
  | 0, _, st => .ok (none, st)
  | left + 1, i, st => do
    match ← nextPhdr cur file eh i st with
    | (.failed e, st) => .ok (some e, st)
    | (.skip, st) => loadSegments eh left (i + 1) st
    | (.load ph, st) =>
      match ← loadSegment cur file ph st with
      | (some e, st) => .ok (some e, st)
      | (none, st) => loadSegments eh left (i + 1) st

def asPrepareLoad (v : Nat) (sp : AddrSpace) : Kern AddrSpace := do
  assert (sp.v = none) "as->v == NULL"
  .ok { sp with v := some v }

def loadElf (v : Nat) (st : Loading) : Kern (Option Errno × Loading) := do
  match ← readHdr cur file sizeofEhdr 0 st with
  | (some e, _, st) => .ok (some e, st)
  | (none, ku, st) =>
    if ku.resid ≠ 0 then .ok (some .enoexec, st)
    else
      let eh := Ehdr.ofMem ku.iovBuf
      if ¬ eh.Identified then .ok (some .enoexec, st)
      else
        match ← defineRegions cur file eh eh.phnum 0 0 st with
        | (some e, st) => .ok (some e, st)
        | (none, st) =>
          let space ← asPrepareLoad v st.space
          match ← loadSegments cur file eh eh.phnum 0 { st with space := space } with
          | (some e, st) => .ok (some e, st)
          | (none, st) => .ok (none, { st with entrypoint := eh.entry })

end

def phdrPos (eh : Ehdr) (i : Nat) : Nat := eh.phoff + i * eh.phentsize

def ehdr (file : List Byte) : Ehdr := Ehdr.ofMem (bytesFrom file 0)

def phdr (file : List Byte) (i : Nat) : Phdr := Phdr.ofMem (bytesFrom file (phdrPos (ehdr file) i))

def Phdr.filled (ph : Phdr) : Nat := min ph.filesz ph.memsz

def applySegment (file : List Byte) (ph : Phdr) (m : Mem) : Mem := fun a =>
  if ph.vaddr ≤ a ∧ a < ph.vaddr + ph.filled then file.getD (ph.offset + (a - ph.vaddr)) 0
  else if ph.vaddr + ph.filled ≤ a ∧ a < ph.vaddr + ph.memsz then 0
  else m a

def loads (file : List Byte) (i n : Nat) : List Phdr :=
  ((List.range' i n).map (phdr file)).filter fun ph => ph.type = ptLoad

def Known (type : Nat) : Prop :=
  type = ptNull ∨ type = ptPhdr ∨ type = ptMipsReginfo ∨ type = ptLoad

section
variable (cur : Curthread) {file : List Byte} (st : Loading)

theorem Ehdr.ofMem_memmove (m src : Mem) :
    Ehdr.ofMem (memmove m 0 src 0 sizeofEhdr) = Ehdr.ofMem src := by
  unfold Ehdr.ofMem
  congr 1
  funext i
  by_cases hi : i < elfNident
  · have hlt : i < sizeofEhdr := Nat.lt_trans hi (by decide)
    rw [if_pos hi,if_pos hi]
    simp [memmove,hlt]
  · rw [if_neg hi,if_neg hi]

theorem Phdr.ofMem_memmove (m src : Mem) :
    Phdr.ofMem (memmove m 0 src 0 sizeofPhdr) = Phdr.ofMem src := rfl

theorem vopRead_filled {cur : Curthread} (file : List Byte) {uio : Uio} {pos : Nat}
    (hl : uio.legal cur) (hrw : uio.rw = .read) (hoff : uio.offset = pos)
    (hr : uio.resid ≤ uio.iovLen) (h32 : uio.resid < 2 ^ 32) :
    (∃ uio', vopRead cur file uio = .ok (none, uio') ∧
        uio.Filled uio' (bytesFrom file pos) (min uio.resid (file.length - pos))) ∨
      ¬ uio.ready cur ∧ vopRead cur file uio = .ok (some .efault, uio) := by
  unfold vopRead
  rw [if_neg (by omega),hoff,Int.toNat_natCast]
  have hmin : min uio.resid (file.length - pos) ≤ uio.resid := Nat.min_le_left ..
  dsimp only
  rcases uiomove_filled hl hrw (hmin.trans hr) hmin h32 with ⟨uio',he,hf⟩ | ⟨hn,he⟩
  · exact .inl ⟨uio',by rw [he]; rfl,hf⟩
  · exact .inr ⟨hn,by rw [he]; rfl⟩

theorem readHdr_eq (file : List Byte) {len : Nat} (pos : Nat) (h0 : 0 < len) (hlen : len < 2 ^ 32) :
    ∃ ku, readHdr cur file len pos st =
        .ok (none, ku, { st with short := st.short || decide (file.length < pos + len) }) ∧
      (ku.resid = 0 ↔ pos + len ≤ file.length) ∧
      (pos + len ≤ file.length → ku.iovBuf = memmove zeros 0 (bytesFrom file pos) 0 len) := by
  have hleg : (mkKuio zeros len pos .read).legal cur := rfl
  rcases vopRead_filled file hleg rfl rfl le_rfl hlen with ⟨ku,he,hf⟩ | ⟨hn,-⟩
  case inr => exact absurd rfl hn
  have hbuf : ku.iovBuf = memmove zeros 0 (bytesFrom file pos) 0 (min len (file.length - pos)) :=
    hf.buf
  have hres : ku.resid = len - min len (file.length - pos) := hf.resid
  refine ⟨ku,?_,by omega,fun hin => ?_⟩
  · unfold readHdr Loading.saw
    rw [he,ok_bind]
    have hiff : (ku.resid ≠ 0) ↔ file.length < pos + len := by omega
    simp only [true_and,hiff]
  · rw [hbuf,Nat.min_eq_left (by omega)]

theorem readHdr_in {len pos : Nat} (h0 : 0 < len) (hlen : len < 2 ^ 32)
    (hin : pos + len ≤ file.length) :
    ∃ ku, readHdr cur file len pos st = .ok (none, ku, st) ∧ ku.resid = 0 ∧
      ku.iovBuf = memmove zeros 0 (bytesFrom file pos) 0 len := by
  obtain ⟨ku,he,hres,hbuf⟩ := readHdr_eq cur st file pos h0 hlen
  refine ⟨ku,?_,hres.mpr hin,hbuf hin⟩
  rw [he,decide_eq_false (by omega),Bool.or_false]

theorem readHdr_out {len pos : Nat} (h0 : 0 < len) (hlen : len < 2 ^ 32)
    (hout : file.length < pos + len) :
    ∃ ku, readHdr cur file len pos st = .ok (none, ku, { st with short := true }) ∧
      ku.resid ≠ 0 := by
  obtain ⟨ku,he,hres,-⟩ := readHdr_eq cur st file pos h0 hlen
  refine ⟨ku,?_,by omega⟩
  rw [he,decide_eq_true hout,Bool.or_true]

theorem phdrPos_offT {eh : Ehdr} {i : Nat} (h : phdrPos eh i < 2 ^ 31) :
    offT (u32 ((eh.phoff : Int) + (i : Int) * eh.phentsize)) = (phdrPos eh i : Nat) := by
  have hcast : (eh.phoff : Int) + (i : Int) * eh.phentsize = (phdrPos eh i : Nat) := by
    simp [phdrPos]
  rw [hcast,u32_of_nat (by omega),offT_of_lt (by omega) (by omega)]

theorem Phdr.classify_cases (ph : Phdr) :
    ph.type = ptLoad ∧ ph.classify = .load ph ∨
      ph.type ≠ ptLoad ∧ Known ph.type ∧ ph.classify = .skip ∨
      ph.classify = .failed .enoexec := by
  unfold Phdr.classify Known
  split_ifs with h1 h2 h3 h4
  · exact .inr (.inl ⟨by rw [h1]; decide,.inl h1,rfl⟩)
  · exact .inr (.inl ⟨by rw [h2]; decide,.inr (.inl h2),rfl⟩)
  · exact .inr (.inl ⟨by rw [h3]; decide,.inr (.inr (.inl h3)),rfl⟩)
  · exact .inl ⟨h4,rfl⟩
  · exact .inr (.inr rfl)

def Inside (file : List Byte) (i : Nat) : Prop :=
  phdrPos (ehdr file) i + sizeofPhdr ≤ file.length

theorem nextPhdr_cases {i : Nat} (hpos : phdrPos (ehdr file) i < 2 ^ 31) :
    Inside file i ∧ (phdr file i).type = ptLoad ∧
        nextPhdr cur file (ehdr file) i st = .ok (.load (phdr file i), st) ∨
      Inside file i ∧ (phdr file i).type ≠ ptLoad ∧ Known (phdr file i).type ∧
        nextPhdr cur file (ehdr file) i st = .ok (.skip, st) ∨
      ∃ short, nextPhdr cur file (ehdr file) i st =
        .ok (.failed .enoexec, { st with short := short }) := by
  unfold nextPhdr
  rw [phdrPos_offT hpos]
  dsimp only
  by_cases hin : Inside file i
  · obtain ⟨ku,he,hres,hbuf⟩ := readHdr_in cur st (by decide) (by decide) hin
    rw [he,ok_bind]
    dsimp only
    rw [if_neg (not_not.mpr hres),hbuf,Phdr.ofMem_memmove]
    rcases Phdr.classify_cases (phdr file i) with ⟨ht,hc⟩ | ⟨ht,hk,hc⟩ | hc
    · exact .inl ⟨hin,ht,by rw [← hc]; rfl⟩
    · exact .inr (.inl ⟨hin,ht,hk,by rw [← hc]; rfl⟩)
    · exact .inr (.inr ⟨st.short,by rw [← hc]; rfl⟩)
  · obtain ⟨ku,he,hres⟩ := readHdr_out cur st (by decide) (by decide)
      (not_le.mp hin)
    rw [he,ok_bind]
    dsimp only
    rw [if_pos hres]
    exact .inr (.inr ⟨true,rfl⟩)

end

structure Ends (st : Loading) (r : Option Errno) (st' : Loading) : Prop where
  entrypoint : st'.entrypoint = st.entrypoint
  short : st'.short = true → st.short = true ∨ r = some .enoexec

theorem Ends.refl (st : Loading) (r : Option Errno) : Ends st r st := ⟨rfl,.inl⟩

theorem Ends.enoexec {st st' : Loading} (h : st'.entrypoint = st.entrypoint) :
    Ends st (some .enoexec) st' := ⟨h,fun _ => .inr rfl⟩

theorem Ends.trans {st st' st'' : Loading} {r : Option Errno} (h : Ends st none st')
    (h' : Ends st' r st'') : Ends st r st'' :=
  ⟨h'.entrypoint.trans h.entrypoint,fun hs =>
    (h'.short hs).elim (fun hs' => .inl ((h.short hs').resolve_right (by simp))) .inr⟩

theorem Ends.of_short {st st' : Loading} {r : Option Errno} (h : Ends st r st')
    (h0 : st.short = false) (hs : st'.short = true) : r = some .enoexec :=
  (h.short hs).resolve_left (by rw [h0]; exact Bool.false_ne_true)

theorem loads_succ (file : List Byte) (i n : Nat) :
    loads file i (n + 1) =
      if (phdr file i).type = ptLoad then phdr file i :: loads file (i + 1) n
      else loads file (i + 1) n := by
  simp [loads,List.range'_succ,List.filter_cons]

section
variable {file : List Byte}

theorem asDefineRegion_v (sp : AddrSpace) (vaddr sz counter : Nat) :
    (asDefineRegion sp vaddr sz counter).2.v = sp.v := by
  unfold asDefineRegion
  dsimp only
  split_ifs <;> rfl

theorem asDefineRegion_counter {sp : AddrSpace} {vaddr sz counter : Nat}
    (h : (asDefineRegion sp vaddr sz counter).1 = none) : counter < 2 := by
  unfold asDefineRegion at h
  split_ifs at h <;> omega

structure Defined (file : List Byte) (i n iteration : Nat) (st st' : Loading) : Prop where
  same : st' = { st with space := st'.space }
  v : st'.space.v = st.space.v
  headers : ∀ k, i ≤ k → k < i + n → Inside file k ∧ Known (phdr file k).type
  few : loads file i n = [] ∨ iteration + (loads file i n).length ≤ 2

theorem defineRegions_spec (cur : Curthread) (n : Nat) : ∀ i iteration st,
    (∀ k, i ≤ k → k < i + n → phdrPos (ehdr file) k < 2 ^ 31) →
    ∃ r st', defineRegions cur file (ehdr file) n i iteration st = .ok (r, st') ∧ Ends st r st' ∧
      (r = none → Defined file i n iteration st st') := by
  induction n with
  | zero =>
    intro i iteration st _
    exact ⟨none,st,rfl,.refl _ _,fun _ => ⟨rfl,rfl,fun k _ _ => by omega,.inl rfl⟩⟩
  | succ n ih =>
    intro i iteration st hpos
    have hrest : ∀ k, i + 1 ≤ k → k < i + 1 + n → phdrPos (ehdr file) k < 2 ^ 31 :=
      fun k hk hk' => hpos k (by omega) (by omega)
    unfold defineRegions
    rcases nextPhdr_cases cur st (hpos i le_rfl (by omega)) with
      ⟨hin,ht,he⟩ | ⟨hin,ht,hk,he⟩ | ⟨short,he⟩
    · rw [he,ok_bind]
      dsimp only
      have hv := asDefineRegion_v st.space (phdr file i).vaddr (phdr file i).memsz iteration
      have hc := @asDefineRegion_counter st.space (phdr file i).vaddr (phdr file i).memsz iteration
      generalize asDefineRegion st.space (phdr file i).vaddr (phdr file i).memsz iteration = d
        at hv hc ⊢
      obtain ⟨e,space⟩ := d
      cases e with
      | some e => exact ⟨_,_,rfl,⟨rfl,.inl⟩,nofun⟩
      | none =>
        obtain ⟨r,st',he',hends,hdef⟩ := ih (i + 1) (iteration + 1) { st with space := space }
          hrest
        refine ⟨r,st',he',⟨hends.entrypoint,hends.short⟩,fun hr => ?_⟩
        have hd := hdef hr
        refine ⟨hd.same,hd.v.trans hv,fun k hk hk' => ?_,.inr ?_⟩
        · rcases Nat.eq_or_lt_of_le hk with rfl | hlt
          · exact ⟨hin,.inr (.inr (.inr ht))⟩
          · exact hd.headers k hlt (by omega)
        · have hlt := hc rfl
          rw [loads_succ,if_pos ht,List.length_cons]
          rcases hd.few with hnil | hle
          · rw [hnil,List.length_nil]
            omega
          · omega
    · rw [he,ok_bind]
      obtain ⟨r,st',he',hends,hdef⟩ := ih (i + 1) iteration st hrest
      refine ⟨r,st',he',hends,fun hr => ?_⟩
      have hd := hdef hr
      refine ⟨hd.same,hd.v,fun k hk' hk'' => ?_,?_⟩
      · rcases Nat.eq_or_lt_of_le hk' with rfl | hlt
        · exact ⟨hin,hk⟩
        · exact hd.headers k hlt (by omega)
      · rw [loads_succ,if_neg ht]
        exact hd.few
    · rw [he,ok_bind]
      exact ⟨_,_,rfl,.enoexec rfl,nofun⟩

end

section Segments
variable {file : List Byte} (as : Nat)

theorem copyout_cases (base size : Nat) :
    copyout base size = none ∨ copyout base size = some .efault := by
  unfold copyout copycheck
  dsimp only
  split_ifs <;> simp
  omega

theorem applySegment_eq (ph : Phdr) (m : Mem) :
    applySegment file ph m =
      memmove (memmove m ph.vaddr (bytesFrom file ph.offset) 0 ph.filled) (ph.vaddr + ph.filled)
        zeros 0 (ph.memsz - ph.filled) := by
  funext a
  simp only [applySegment,memmove,zeros,bytesFrom,Nat.zero_add]
  by_cases h1 : ph.vaddr ≤ a ∧ a < ph.vaddr + ph.filled
  · rw [if_pos h1,if_neg (by omega),if_pos h1]
  · rw [if_neg h1]
    by_cases h2 : ph.vaddr + ph.filled ≤ a ∧ a < ph.vaddr + ph.memsz
    · rw [if_pos h2,if_pos (by omega)]
    · rw [if_neg h2,if_neg (by omega),if_neg h1]

structure Placed (file : List Byte) (phs : List Phdr) (st st' : Loading) : Prop where
  state : st' = { st with mem := phs.foldl (fun m ph => applySegment file ph m) st.mem }
  inside : ∀ ph ∈ phs, ∀ k < ph.filled, ph.offset + k < file.length

theorem segmentUio_legal (ph : Phdr) (filesize : Nat) (m : Mem) :
    (segmentUio (loader as) ph filesize m).legal (loader as) := by
  unfold Uio.legal segmentUio
  cases ph.executable <;> exact ⟨rfl,copyout_cases⟩

theorem loadSegment_spec (ph : Phdr) (st : Loading) (hoff : ph.offset < 2 ^ 31)
    (hm : ph.memsz < 2 ^ 32) :
    ∃ r st', loadSegment (loader as) file ph st = .ok (r, st') ∧ Ends st r st' ∧
      (r = none → Placed file [ph] st st') := by
  have hfs : (if ph.memsz < ph.filesz then ph.memsz else ph.filesz) = ph.filled := by
    unfold Phdr.filled
    split_ifs <;> omega
  have hle : ph.filled ≤ ph.memsz := Nat.min_le_right ..
  have hleg := segmentUio_legal as ph ph.filled st.mem
  have hpos : (segmentUio (loader as) ph ph.filled st.mem).offset = ph.offset := by
    dsimp only [segmentUio]
    rw [offT_of_lt (by omega) (by omega)]
  have h32 : (segmentUio (loader as) ph ph.filled st.mem).resid < 2 ^ 32 := by
    dsimp only [segmentUio]
    omega
  have hread := vopRead_filled file hleg rfl hpos hle h32
  unfold loadSegment
  dsimp only
  rw [hfs]
  rcases hread with ⟨u,he,hf⟩ | ⟨-,he⟩
  case inr =>
    rw [he,ok_bind]
    exact ⟨_,_,rfl,⟨rfl,fun hs => .inl (by simpa [Loading.saw] using hs)⟩,nofun⟩
  have hres : u.resid = ph.filled - min ph.filled (file.length - ph.offset) := hf.resid
  rw [he,ok_bind]
  by_cases hz : u.resid = 0
  case neg =>
    rw [if_pos hz]
    exact ⟨_,_,rfl,.enoexec rfl,nofun⟩
  have hmin : min ph.filled (file.length - ph.offset) = ph.filled := by omega
  have hfilled : (segmentUio (loader as) ph ph.filled st.mem).Filled u (bytesFrom file ph.offset)
      (min ph.filled (file.length - ph.offset)) := hf
  rw [hmin] at hfilled
  have hbuf : u.iovBuf = memmove st.mem ph.vaddr (bytesFrom file ph.offset) 0 ph.filled :=
    hfilled.buf
  have hinside : ∀ k < ph.filled, ph.offset + k < file.length := fun k hk => by omega
  have hsaw : st.saw none u = st := by simp [Loading.saw,hz]
  have hfill : u32 ((ph.memsz : Int) - ph.filled) = ph.memsz - ph.filled := by
    rw [← Nat.cast_sub hle,u32_of_nat (by omega)]
  rw [if_neg (not_not.mpr hz),hfill,hsaw]
  by_cases h0 : 0 < ph.memsz - ph.filled
  · rw [if_pos h0,hz]
    have hr : u32 (((0 : Nat) : Int) + (ph.memsz - ph.filled : Nat)) = ph.memsz - ph.filled := by
      rw [Nat.cast_zero,zero_add,u32_of_nat (by omega)]
    rw [hr]
    have hleg' : ({ u with resid := ph.memsz - ph.filled } : Uio).legal (loader as) :=
      hf.legal hleg
    have hlen : ph.memsz - ph.filled ≤ u.iovLen := hfilled.len.ge
    have hlt : ph.memsz - ph.filled < 2 ^ 32 := by omega
    rcases uiomovezeros_filled hleg' hf.rw hlen le_rfl hlt with ⟨u',he',hf'⟩ | ⟨u',he'⟩
    · rw [he',ok_bind]
      refine ⟨_,_,rfl,⟨rfl,.inl⟩,fun _ => ⟨?_,by simpa using hinside⟩⟩
      have hbase : u.iovBase = ph.vaddr + ph.filled := hfilled.base
      have hmem : u'.iovBuf = applySegment file ph st.mem := by
        rw [hf'.buf,applySegment_eq,← hbuf,← hbase]
      rw [List.foldl_cons,List.foldl_nil,← hmem]
    · rw [he',ok_bind]
      exact ⟨_,_,rfl,⟨rfl,.inl⟩,nofun⟩
  · rw [if_neg h0]
    refine ⟨_,_,rfl,⟨rfl,.inl⟩,fun _ => ⟨?_,by simpa using hinside⟩⟩
    have hmem : u.iovBuf = applySegment file ph st.mem := by
      rw [applySegment_eq,Nat.eq_zero_of_not_pos h0,memmove_zero,hbuf]
    rw [List.foldl_cons,List.foldl_nil,← hmem]

theorem Placed.cons {ph : Phdr} {phs : List Phdr} {st st' st'' : Loading}
    (h : Placed file [ph] st st') (h' : Placed file phs st' st'') :
    Placed file (ph :: phs) st st'' where
  state := by rw [h'.state,h.state]; rfl
  inside ph' hmem := by
    rcases List.mem_cons.mp hmem with rfl | hmem
    · exact h.inside _ (List.mem_singleton_self _)
    · exact h'.inside _ hmem

theorem loadSegments_spec (n : Nat) : ∀ i st,
    (∀ k, i ≤ k → k < i + n → phdrPos (ehdr file) k < 2 ^ 31) →
    (∀ k, i ≤ k → k < i + n → Inside file k → (phdr file k).type = ptLoad →
      (phdr file k).offset < 2 ^ 31) →
    ∃ r st', loadSegments (loader as) file (ehdr file) n i st = .ok (r, st') ∧ Ends st r st' ∧
      (r = none → Placed file (loads file i n) st st') := by
  induction n with
  | zero => exact fun i st _ _ => ⟨none,st,rfl,.refl _ _,fun _ => ⟨rfl,nofun⟩⟩
  | succ n ih =>
    intro i st hpos hoff
    have hrest : ∀ st, ∃ r st', loadSegments (loader as) file (ehdr file) n (i + 1) st =
        .ok (r, st') ∧ Ends st r st' ∧ (r = none → Placed file (loads file (i + 1) n) st st') :=
      fun st => ih (i + 1) st (fun k hk hk' => hpos k (by omega) (by omega))
        (fun k hk hk' => hoff k (by omega) (by omega))
    unfold loadSegments
    rw [loads_succ]
    rcases nextPhdr_cases (loader as) st (hpos i le_rfl (by omega)) with
      ⟨hin,ht,he⟩ | ⟨-,ht,-,he⟩ | ⟨short,he⟩
    · rw [he,ok_bind,if_pos ht]
      dsimp only
      obtain ⟨r,st',he',hends,hplaced⟩ := loadSegment_spec as (phdr file i) st
        (hoff i le_rfl (by omega) hin ht) (Bytes.load32_lt _ _)
      rw [he',ok_bind]
      cases r with
      | some e => exact ⟨_,_,rfl,hends,nofun⟩
      | none =>
        obtain ⟨r,st'',he'',hends',hplaced'⟩ := hrest st'
        exact ⟨r,st'',he'',hends.trans hends',fun hr => (hplaced rfl).cons (hplaced' hr)⟩
    · rw [he,ok_bind,if_neg ht]
      exact hrest st
    · rw [he,ok_bind]
      exact ⟨_,_,rfl,.enoexec rfl,nofun⟩

end Segments

structure Addressable (file : List Byte) : Prop where
  headers : sizeofEhdr ≤ file.length → ∀ i < (ehdr file).phnum, phdrPos (ehdr file) i < 2 ^ 31
  segments : ∀ i < (ehdr file).phnum, Inside file i → (phdr file i).type = ptLoad →
    (phdr file i).offset < 2 ^ 31

structure Loaded (file : List Byte) (st st' : Loading) : Prop where
  header : sizeofEhdr ≤ file.length
  identified : (ehdr file).Identified
  headers : ∀ i < (ehdr file).phnum, Inside file i ∧ Known (phdr file i).type
  few : (loads file 0 (ehdr file).phnum).length ≤ 2
  entrypoint : st'.entrypoint = (ehdr file).entry
  inside : ∀ ph ∈ loads file 0 (ehdr file).phnum, ∀ k < ph.filled, ph.offset + k < file.length
  mem : st'.mem =
    (loads file 0 (ehdr file).phnum).foldl (fun m ph => applySegment file ph m) st.mem

theorem load_elf_loads_segments (file : List Byte) (as v : Nat) (st : Loading)
    (hfile : Addressable file) (hfresh : st.space.v = none) (hshort : st.short = false) :
    ∃ r st', loadElf (loader as) file v st = .ok (r, st') ∧ (r = none → Loaded file st st') ∧
      (st'.short = true → r = some .enoexec ∧ st'.entrypoint = st.entrypoint) := by
  unfold loadElf
  rcases Nat.lt_or_ge file.length (0 + sizeofEhdr) with hlt | hin
  · obtain ⟨ku,he,hres⟩ := readHdr_out (loader as) st (by decide) (by decide) hlt
    rw [← Nat.cast_zero,he,ok_bind]
    dsimp only
    rw [if_pos hres]
    exact ⟨_,_,rfl,nofun,fun _ => ⟨rfl,rfl⟩⟩
  obtain ⟨ku,he,hres,hbuf⟩ := readHdr_in (loader as) st (by decide) (by decide) hin
  rw [← Nat.cast_zero,he,ok_bind]
  dsimp only
  have heh : Ehdr.ofMem ku.iovBuf = ehdr file := by rw [hbuf,Ehdr.ofMem_memmove,ehdr]
  rw [if_neg (not_not.mpr hres),heh]
  by_cases hid : (ehdr file).Identified
  case neg =>
    rw [if_pos hid]
    exact ⟨_,_,rfl,nofun,fun _ => ⟨rfl,rfl⟩⟩
  rw [if_neg (not_not.mpr hid)]
  have hin' : sizeofEhdr ≤ file.length := by omega
  have hpos : ∀ k, 0 ≤ k → k < 0 + (ehdr file).phnum → phdrPos (ehdr file) k < 2 ^ 31 :=
    fun k _ hk => hfile.headers hin' k (by omega)
  obtain ⟨r,st₁,he₁,hends₁,hdef⟩ := defineRegions_spec (loader as) (ehdr file).phnum 0 0 st
    hpos
  rw [he₁,ok_bind]
  cases r with
  | some e =>
    exact ⟨_,_,rfl,nofun,fun hs => ⟨hends₁.of_short hshort hs,hends₁.entrypoint⟩⟩
  | none =>
    have hd := hdef rfl
    have hshort₁ : st₁.short = false := by rw [hd.same]; exact hshort
    have hprep : asPrepareLoad v st₁.space = .ok { st₁.space with v := some v } := by
      unfold asPrepareLoad
      rw [hd.v,hfresh,assert_of (by rfl),ok_bind]
    dsimp only
    rw [hprep,ok_bind]
    obtain ⟨r,st₂,he₂,hends₂,hplaced⟩ := loadSegments_spec as (ehdr file).phnum 0
      { st₁ with space := { st₁.space with v := some v } } hpos
      (fun k _ hk => hfile.segments k (by omega))
    rw [he₂,ok_bind]
    have hshort₂ := hends₂.of_short hshort₁
    cases r with
    | some e =>
      exact ⟨_,_,rfl,nofun,fun hs =>
        ⟨hshort₂ hs,hends₂.entrypoint.trans hends₁.entrypoint⟩⟩
    | none =>
      have hp := hplaced rfl
      refine ⟨_,_,rfl,fun _ => ?_,fun hs => absurd (hshort₂ hs) nofun⟩
      have hmem : st₁.mem = st.mem := by rw [hd.same]
      refine ⟨hin',hid,fun i hi => hd.headers i (Nat.zero_le i) (by omega),?_,rfl,hp.inside,?_⟩
      · rcases hd.few with hnil | hle
        · rw [hnil]
          exact Nat.zero_le 2
        · omega
      · rw [← hmem]
        rw [hp.state]

def noSpace : AddrSpace := ⟨none, 0, 0, 0, 0, 0, 0, 0, fun _ => none⟩

def tiny : List Byte :=
  [0x7f, 0x45, 0x4c, 0x46, 1, 2, 1, 0, 0, 0, 0, 0, 0, 0, 0, 0,
    0, 2, 0, 8, 0, 0, 0, 1, 0, 0x40, 0, 0, 0, 0, 0, 52, 0, 0, 0, 0, 0, 0, 0, 0,
    0, 52, 0, 32, 0, 1, 0, 0, 0, 0, 0, 0,
    0, 0, 0, 1, 0, 0, 0, 84, 0, 0x40, 0, 0, 0, 0, 0, 0, 0, 0, 0, 4, 0, 0, 0, 8, 0, 0, 0, 5,
    0, 0, 0x10, 0, 1, 2, 3, 4]

def idle : Loading := ⟨fun _ => 9, noSpace, 0, false⟩

theorem tiny_addressable : Addressable tiny := by
  have hnum : (ehdr tiny).phnum = 1 := by decide +kernel
  constructor
  · intro _ i hi
    obtain rfl : i = 0 := by omega
    decide +kernel
  · intro i hi _ _
    obtain rfl : i = 0 := by omega
    decide +kernel

theorem load_elf_loads_tiny :
    (∃ r st', loadElf (loader 7) tiny 3 idle = .ok (r, st') ∧ (r = none → Loaded tiny idle st') ∧
      (st'.short = true → r = some .enoexec ∧ st'.entrypoint = idle.entrypoint)) ∧
    (loadElf (loader 7) tiny 3 idle).toOption.map (fun p =>
      (p.1, p.2.entrypoint, [0x3fffff, 0x400000, 0x400003, 0x400004, 0x400008].map p.2.mem)) =
      some (none, 0x400000, [9, 1, 4, 0, 9]) :=
  ⟨load_elf_loads_segments tiny 7 3 idle tiny_addressable rfl rfl,by decide +kernel⟩

end Elf

end OS161
