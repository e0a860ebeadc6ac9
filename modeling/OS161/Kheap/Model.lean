import OS161.Kern
import OS161.Lib.Bits
import OS161.Lib.Bytes
import OS161.Lib.Linked

namespace OS161.Kheap

open Bytes (load32 store32)
open Linked (Cells unlink)

def pageSize : Nat := 4096

def sizes : List Nat := [16, 32, 64, 128, 256, 512, 1024, 2048]

def nsizes : Nat := 8

def largestSubpageSize : Nat := 2048

def npagerefs : Nat := 256

def inuseWords : Nat := 8

def invalidOffset : Nat := 0xffff

def sizeOf (blktype : Nat) : Nat := sizes.getD blktype 0

structure Pageref where
  nextSamesize : Option Nat
  nextAll : Option Nat
  pageaddrAndBlocktype : Nat
  freelistOffset : Nat
  nfree : Nat
  deriving DecidableEq, Repr

structure Heap where
  pagerefs : Nat → Pageref
  inuse : Nat → Nat
  sizebases : Nat → Option Nat
  allbase : Option Nat
  mem : Bytes.Mem

inductive Kpages where
  | alloc (npages addr : Nat)
  | free (addr : Nat)
  deriving DecidableEq, Repr

def u16 (x : Int) : Nat := (x % 2 ^ 16).toNat

def prPageaddr (pr : Pageref) : Nat := pr.pageaddrAndBlocktype / pageSize * pageSize

def prBlocktype (pr : Pageref) : Nat := pr.pageaddrAndBlocktype % pageSize

def mkpab (pa blk : Nat) : Nat := pa / pageSize * pageSize + blk % pageSize

def Heap.setPageref (h : Heap) (r : Nat) (pr : Pageref) : Heap :=
  { h with pagerefs := Function.update h.pagerefs r pr }

def allocpageref (h : Heap) : Kern (Option (Nat × Heap)) :=
  match Bits.scan 32 h.inuse inuseWords 0 with
  | .full => .ok none
  | .found i j => .ok (some (i * 32 + j, { h with inuse := Bits.raise h.inuse i j }))
  | .stuck => .error (.panic "0")

def freepageref (h : Heap) (r : Nat) : Kern Heap := do
  assert (r < npagerefs) "j < NPAGEREFS"
  assert ((h.inuse (r / 32)).testBit (r % 32)) "(pagerefs_inuse[i] & k) != 0"
  .ok { h with inuse := Bits.lower 32 h.inuse (r / 32) (r % 32) }

def removeLists (h : Heap) (r blktype : Nat) : Kern Heap := do
  assert (blktype < nsizes) "blktype>=0 && blktype<NSIZES"
  match unlink r npagerefs none ⟨h.sizebases blktype, fun q => (h.pagerefs q).nextSamesize⟩ with
  | none => .error .hang
  | some c =>
    let h₁ : Heap := { h with
      sizebases := Function.update h.sizebases blktype c.head
      pagerefs := fun q => { h.pagerefs q with nextSamesize := c.next q } }
    match unlink r npagerefs none ⟨h₁.allbase, fun q => (h₁.pagerefs q).nextAll⟩ with
    | none => .error .hang
    | some d =>
      .ok { h₁ with
        allbase := d.head
        pagerefs := fun q => { h₁.pagerefs q with nextAll := d.next q } }

def blocktype (sz : Nat) : Kern Nat :=
  match sizes.findIdx? (sz ≤ ·) with
  | some i => .ok i
  | none => .error (.panic "Subpage allocator cannot handle allocation of size %lu\n")

def findFree (h : Heap) (blktype : Nat) : Nat → Option Nat → Kern (Option Nat)
  | _, none => .ok none
  | 0, some _ => .error .hang
  | fuel + 1, some r => do
    assert (prBlocktype (h.pagerefs r) = blktype) "PR_BLOCKTYPE(pr) == blktype"
    if (h.pagerefs r).nfree > 0 then .ok (some r)
    else findFree h blktype fuel (h.pagerefs r).nextSamesize

def doalloc (h : Heap) (r : Nat) : Kern (Nat × Heap) := do
  let pr := h.pagerefs r
  assert (pr.freelistOffset < pageSize) "pr->freelist_offset < PAGE_SIZE"
  let prpage := prPageaddr pr
  let retptr := u32 (prpage + pr.freelistOffset)
  let fl := load32 h.mem retptr
  let nfree := u16 (pr.nfree - 1)
  if fl ≠ 0 then
    assert (nfree > 0) "pr->nfree > 0"
    assert (u32 (fl - prpage) < pageSize) "fla - prpage < PAGE_SIZE"
    .ok (retptr, h.setPageref r
      { pr with nfree := nfree, freelistOffset := u16 (u32 (fl - prpage)) })
  else
    assert (nfree = 0) "pr->nfree == 0"
    .ok (retptr, h.setPageref r { pr with nfree := nfree, freelistOffset := invalidOffset })

def chainBlocks (fla size : Nat) : Nat → Bytes.Mem → Kern Bytes.Mem
  | 0, m => .ok (store32 m fla 0)
  | i + 1, m => do
    let m ← chainBlocks fla size i m
    let fl := u32 (fla + (i + 1) * size)
    let m := store32 m fl (u32 (fla + i * size))
    assert (fl ≠ load32 m fl) "fl != fl->next"
    .ok m

def initPage (h : Heap) (r prpage blktype : Nat) : Kern Heap := do
  let nfree := u16 (pageSize / sizeOf blktype)
  let mem ← chainBlocks prpage (sizeOf blktype) (nfree - 1) h.mem
  let fl := u32 (prpage + (nfree - 1) * sizeOf blktype)
  let offset := u16 (u32 (fl - prpage))
  assert (offset = (nfree - 1) * sizeOf blktype)
    "pr->freelist_offset == (pr->nfree-1)*sizes[blktype]"
  .ok { h.setPageref r
    { nextSamesize := h.sizebases blktype
      nextAll := h.allbase
      pageaddrAndBlocktype := mkpab prpage blktype
      freelistOffset := offset
      nfree := nfree } with
    mem := mem
    sizebases := Function.update h.sizebases blktype (some r)
    allbase := some r }

def subpageKmalloc (h : Heap) (sz page : Nat) : Kern (Nat × Heap × List Kpages) := do
  let blktype ← blocktype sz
  match ← findFree h blktype npagerefs (h.sizebases blktype) with
  | some r => do
    let (p, h') ← doalloc h r
    .ok (p, h', [])
  | none =>
    match ← allocpageref h with
    | none => .ok (0, h, [])
    | some (r, h₁) =>
      if page = 0 then do
        let h₂ ← freepageref h₁ r
        .ok (0, h₂, [.alloc 1 page])
      else do
        let h₂ ← initPage h₁ r page blktype
        let (p, h') ← doalloc h₂ r
        .ok (p, h', [.alloc 1 page])

def findPage (h : Heap) (ptraddr : Nat) : Nat → Option Nat → Kern (Option Nat)
  | _, none => .ok none
  | 0, some _ => .error .hang
  | fuel + 1, some r => do
    let prpage := prPageaddr (h.pagerefs r)
    assert (prBlocktype (h.pagerefs r) < nsizes) "blktype>=0 && blktype<NSIZES"
    if ptraddr ≥ prpage ∧ ptraddr < u32 (prpage + pageSize) then .ok (some r)
    else findPage h ptraddr fuel (h.pagerefs r).nextAll

def fillDeadbeef (m : Bytes.Mem) (ptr : Nat) : Nat → Bytes.Mem
  | 0 => m
  | n + 1 => fillDeadbeef (store32 m ptr 0xdeadbeef) (ptr + 4) n

def subpageKfree (h : Heap) (ptr : Nat) : Kern (Option (Heap × List Kpages)) := do
  match ← findPage h ptr npagerefs h.allbase with
  | none => .ok none
  | some r =>
    let pr := h.pagerefs r
    let prpage := prPageaddr pr
    let blktype := prBlocktype pr
    let offset := u32 (ptr - prpage)
    if offset ≥ pageSize ∨ offset % sizeOf blktype ≠ 0 then
      .error (.panic "kfree: subpage free of invalid addr %p\n")
    else do
      let fla := u32 (prpage + offset)
      let next :=
        if pr.freelistOffset = invalidOffset then 0 else u32 (prpage + pr.freelistOffset)
      let h₁ := { h.setPageref r
        { pr with freelistOffset := u16 offset, nfree := u16 (pr.nfree + 1) } with
        mem := store32 (fillDeadbeef h.mem ptr (sizeOf blktype / 4)) fla next }
      assert ((h₁.pagerefs r).nfree ≤ pageSize / sizeOf blktype)
        "pr->nfree <= PAGE_SIZE / sizes[blktype]"
      if (h₁.pagerefs r).nfree = pageSize / sizeOf blktype then do
        let h₂ ← removeLists h₁ r blktype
        let h₃ ← freepageref h₂ r
        .ok (some (h₃, [.free prpage]))
      else .ok (some (h₁, []))

def npagesFor (sz : Nat) : Nat := u32 (sz + pageSize - 1) / pageSize

def kmalloc (h : Heap) (sz page : Nat) : Kern (Nat × Heap × List Kpages) :=
  if sz ≥ largestSubpageSize then .ok (page, h, [.alloc (npagesFor sz) page])
  else subpageKmalloc h sz page

def kfree (h : Heap) (ptr : Nat) : Kern (Heap × List Kpages) := do
  if ptr = 0 then .ok (h, [])
  else
    match ← subpageKfree h ptr with
    | some r => .ok r
    | none => do
      assert (ptr % pageSize = 0) "(vaddr_t)ptr%PAGE_SIZE==0"
      .ok (h, [.free ptr])

end OS161.Kheap
