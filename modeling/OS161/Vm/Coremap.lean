import OS161.Kern
import Mathlib.Data.List.Range

namespace OS161

open Function

def pageSize : Nat := 4096

def mipsKseg0 : Nat := 0x80000000

def pageFrame (x : Nat) : Nat := x / 4096 * 4096

structure CoremapEntry where
  allocated : Int
  continuous : Int
  as : Option Nat
  pe : Option (Nat × Nat)
  deriving DecidableEq, Repr

structure Ram where
  firstpaddr : Nat
  lastpaddr : Nat
  deriving DecidableEq, Repr

structure Ram.Accepted (ram : Ram) : Prop where
  first : ram.firstpaddr % 4096 = 0
  last : ram.lastpaddr % 4096 = 0
  ordered : ram.firstpaddr ≤ ram.lastpaddr
  top : ram.lastpaddr ≤ 508 * 1024 * 1024

structure Coremap where
  numofpage : Nat
  freePagesStr : Nat
  coremapStr : Nat
  entries : Nat → CoremapEntry

def ramStealmem (npages : Nat) (ram : Ram) : Nat × Ram :=
  let size := u32 (npages * pageSize)
  if ram.lastpaddr < u32 (ram.firstpaddr + size) then (0, ram)
  else (ram.firstpaddr, { ram with firstpaddr := u32 (ram.firstpaddr + size) })

def vmBootstrap (ram : Ram) (entries : Nat → CoremapEntry) : Coremap :=
  let coremapStr := pageFrame ram.firstpaddr
  let lastpage := pageFrame ram.lastpaddr
  let freepages := u32 (lastpage - coremapStr) / 4096
  let mapsize := u32 (freepages * 16)
  let coremapPages := u32 (mapsize / 4096 + 1)
  { numofpage := u32 (freepages - coremapPages)
    freePagesStr := u32 (coremapStr + coremapPages * 4096)
    coremapStr := u32 (ram.firstpaddr + mipsKseg0)
    entries := entries }

namespace Coremap

def count (c : Coremap) : Nat := (u32 (c.coremapStr + 16 * c.numofpage) - c.coremapStr) / 16

def setEntry (c : Coremap) (i : Nat) (e : CoremapEntry) : Coremap :=
  { c with entries := Function.update c.entries i e }

def frameAddr (c : Coremap) (i : Nat) : Nat := u32 (c.freePagesStr + i * 4096)

def markRun (c : Coremap) (start npages : Nat) : Coremap :=
  { c with entries := fun i =>
      if start ≤ i ∧ i < start + npages then { c.entries i with allocated := 1 }
      else c.entries i }

def clearRun (c : Coremap) (start npages : Nat) : Coremap :=
  { c with entries := fun i =>
      if start ≤ i ∧ i < start + npages then { c.entries i with allocated := 0 }
      else c.entries i }

def setContinuous (c : Coremap) (i : Nat) (n : Int) : Coremap :=
  c.setEntry i { c.entries i with continuous := n }

def firstUnallocated (c : Coremap) : Nat :=
  ((List.range c.count).find? fun i => (c.entries i).allocated ≠ 1).getD c.count

def freeRun (c : Coremap) (npages : Nat) : Nat → Nat → Nat → Bool
  | 0, _, _ => false
  | left + 1, lcr, counter =>
    if (c.entries lcr).allocated = 0 then
      if npages ≤ counter + 1 then true else c.freeRun npages left (lcr + 1) (counter + 1)
    else false

def takeRun (c : Coremap) (start npages : Nat) : Coremap :=
  (c.setContinuous start npages).markRun start npages

end Coremap

structure Phys where
  ram : Ram
  coremap : Coremap

def getppages (npages : Nat) (p : Phys) : Nat × Phys :=
  let c := p.coremap
  if c.coremapStr = 0 then
    let (addr, ram) := ramStealmem npages p.ram
    (addr, { p with ram := ram })
  else
    let start := c.firstUnallocated
    if c.freeRun npages (c.count - start) start 0 then
      (c.frameAddr start, { p with coremap := c.takeRun start npages })
    else (0, p)

def allocKpages (npages : Int) (p : Phys) : Nat × Phys :=
  let (pa, p) := getppages (u32 npages) p
  if pa = 0 then (0, p) else (u32 (pa + mipsKseg0), p)

def kpageIndex (c : Coremap) (addr : Nat) : Nat :=
  u32 (u32 (addr - mipsKseg0) - c.freePagesStr) / 4096

def freeKpages (addr : Nat) (p : Phys) : Phys :=
  let c := p.coremap
  let i := kpageIndex c addr
  { p with coremap := (c.clearRun i (c.entries i).continuous.toNat).setContinuous i 0 }

def allocatePhysicalPage (p : Phys) : Option (Nat × Phys) :=
  let c := p.coremap
  match (List.range c.count).find? fun i => (c.entries i).allocated = 0 with
  | none => none
  | some i => some (i, { p with coremap := c.setEntry i { c.entries i with allocated := 1 } })

def kmallocPages (sz : Nat) (p : Phys) : Nat × Phys :=
  allocKpages (u32 (sz + pageSize - 1) / pageSize) p

namespace Coremap

def kvaddr (c : Coremap) (i : Nat) : Nat := u32 (c.frameAddr i + mipsKseg0)

structure Sane (c : Coremap) : Prop where
  aligned : c.freePagesStr % 4096 = 0
  pos : 0 < c.freePagesStr
  fits : c.freePagesStr + c.count * 4096 ≤ 2 ^ 29
  booted : c.coremapStr ≠ 0

section
variable (c : Coremap) (i : Nat) (e : CoremapEntry) (n : Nat)

@[simp] theorem entries_setEntry :
    (c.setEntry i e).entries = Function.update c.entries i e := rfl

theorem takeRun_allocated (j : Nat) : ((c.takeRun i n).entries j).allocated =
    if i ≤ j ∧ j < i + n then 1 else (c.entries j).allocated := by
  simp only [takeRun,markRun,setContinuous,entries_setEntry,update_apply]
  split <;> split <;> simp_all

theorem takeRun_continuous (j : Nat) : ((c.takeRun i n).entries j).continuous =
    if j = i then (n : Int) else (c.entries j).continuous := by
  simp only [takeRun,markRun,setContinuous,entries_setEntry,update_apply]
  split <;> split <;> simp_all

theorem takeRun_as (j : Nat) : ((c.takeRun i n).entries j).as = (c.entries j).as := by
  simp only [takeRun,markRun,setContinuous,entries_setEntry,update_apply]
  split <;> split <;> simp_all

theorem takeRun_pe (j : Nat) : ((c.takeRun i n).entries j).pe = (c.entries j).pe := by
  simp only [takeRun,markRun,setContinuous,entries_setEntry,update_apply]
  split <;> split <;> simp_all

end

structure SameFrames (c d : Coremap) : Prop where
  numofpage : d.numofpage = c.numofpage
  freePagesStr : d.freePagesStr = c.freePagesStr
  coremapStr : d.coremapStr = c.coremapStr

section
variable {c d e : Coremap} (h : c.SameFrames d)
include h

theorem SameFrames.trans (h' : d.SameFrames e) : c.SameFrames e :=
  ⟨h'.numofpage.trans h.numofpage,h'.freePagesStr.trans h.freePagesStr,
    h'.coremapStr.trans h.coremapStr⟩

theorem SameFrames.count : d.count = c.count := by
  unfold Coremap.count
  rw [h.coremapStr,h.numofpage]

theorem SameFrames.frameAddr : d.frameAddr = c.frameAddr := by
  unfold Coremap.frameAddr
  rw [h.freePagesStr]

theorem SameFrames.kvaddr : d.kvaddr = c.kvaddr := by
  unfold Coremap.kvaddr
  rw [h.frameAddr]

theorem SameFrames.sane (hs : c.Sane) : d.Sane where
  aligned := by rw [h.freePagesStr]; exact hs.aligned
  pos := by rw [h.freePagesStr]; exact hs.pos
  fits := by rw [h.freePagesStr,h.count]; exact hs.fits
  booted := by rw [h.coremapStr]; exact hs.booted

end

theorem SameFrames.refl (c : Coremap) : c.SameFrames c := ⟨rfl,rfl,rfl⟩

theorem sameFrames_setEntry (c : Coremap) (i : Nat) (e : CoremapEntry) :
    c.SameFrames (c.setEntry i e) := ⟨rfl,rfl,rfl⟩

theorem sameFrames_takeRun (c : Coremap) (h n : Nat) : c.SameFrames (c.takeRun h n) :=
  ⟨rfl,rfl,rfl⟩

section
variable {c : Coremap} (h : c.Sane) {i : Nat} (hi : i < c.count)
include h hi

theorem frameAddr_eq : c.frameAddr i = c.freePagesStr + i * 4096 := by
  have hf := h.fits
  unfold frameAddr u32
  omega

theorem frameAddr_pos : 0 < c.frameAddr i := by
  have hp := h.pos
  rw [frameAddr_eq h hi]
  omega

theorem frameAddr_lt : c.frameAddr i + 4096 ≤ 2 ^ 29 := by
  have hf := h.fits
  rw [frameAddr_eq h hi]
  omega

theorem frameAddr_aligned : c.frameAddr i % 4096 = 0 := by
  have ha := h.aligned
  rw [frameAddr_eq h hi]
  omega

theorem kvaddr_eq : c.kvaddr i = c.freePagesStr + i * 4096 + mipsKseg0 := by
  have hl := frameAddr_lt h hi
  unfold kvaddr u32 mipsKseg0
  rw [frameAddr_eq h hi] at hl ⊢
  omega

theorem kpageIndex_kvaddr : kpageIndex c (c.kvaddr i) = i := by
  have hl := frameAddr_lt h hi
  rw [frameAddr_eq h hi] at hl
  unfold kpageIndex u32
  rw [kvaddr_eq h hi]
  unfold mipsKseg0
  omega

end

theorem freeRun_iff (c : Coremap) (npages left lcr counter : Nat) :
    c.freeRun npages left lcr counter = true ↔
      max 1 (npages - counter) ≤ left ∧
        ∀ k < max 1 (npages - counter), (c.entries (lcr + k)).allocated = 0 := by
  induction left generalizing lcr counter with
  | zero =>
    simp only [freeRun,Bool.false_eq_true,false_iff]
    omega
  | succ left ih =>
    by_cases ha : (c.entries lcr).allocated = 0
    · by_cases hn : npages ≤ counter + 1
      · have hm : max 1 (npages - counter) = 1 := by omega
        simp [freeRun,ha,hn,hm]
      · have hm : max 1 (npages - counter) = max 1 (npages - (counter + 1)) + 1 := by omega
        simp only [freeRun,ha,hn,if_true,if_false,ih,hm]
        constructor
        · rintro ⟨hl,hk⟩
          refine ⟨by omega,fun k hlt => ?_⟩
          cases k with
          | zero => exact ha
          | succ k =>
            have := hk k (by omega)
            rwa [show lcr + 1 + k = lcr + (k + 1) by omega] at this
        · rintro ⟨hl,hk⟩
          refine ⟨by omega,fun k hlt => ?_⟩
          have := hk (k + 1) (by omega)
          rwa [show lcr + (k + 1) = lcr + 1 + k by omega] at this
    · simp only [freeRun,ha,if_false,Bool.false_eq_true,false_iff]
      rintro ⟨-,hk⟩
      exact ha (by simpa using hk 0 (by omega))

theorem firstUnallocated_le (c : Coremap) : c.firstUnallocated ≤ c.count := by
  unfold firstUnallocated
  cases hf : (List.range c.count).find? _ with
  | none => simp
  | some i =>
    have := List.find?_range_eq_some.mp hf
    simp only [List.mem_range] at this
    exact Nat.le_of_lt this.2.1

end Coremap

theorem sameFrames_freeKpages (a : Nat) (p : Phys) :
    p.coremap.SameFrames (freeKpages a p).coremap := ⟨rfl,rfl,rfl⟩

theorem getppages_cases {p : Phys} (hs : p.coremap.Sane) (npages : Nat) :
    getppages npages p = (0, p) ∨
      ∃ start, start = p.coremap.firstUnallocated ∧ start + max 1 npages ≤ p.coremap.count ∧
        (∀ k < max 1 npages, (p.coremap.entries (start + k)).allocated = 0) ∧
        getppages npages p =
          (p.coremap.frameAddr start, { p with coremap := p.coremap.takeRun start npages }) := by
  by_cases hr : p.coremap.freeRun npages
      (p.coremap.count - p.coremap.firstUnallocated) p.coremap.firstUnallocated 0 = true
  · refine Or.inr ⟨_,rfl,?_,?_,?_⟩
    · have := (Coremap.freeRun_iff _ _ _ _ _).mp hr
      have := Coremap.firstUnallocated_le p.coremap
      omega
    · exact fun k hk => ((Coremap.freeRun_iff _ _ _ _ _).mp hr).2 k (by omega)
    · simp [getppages,hs.booted,hr]
  · exact Or.inl (by simp [getppages,hs.booted,hr])

theorem allocKpages_cases {p : Phys} (hs : p.coremap.Sane) {npages : Int}
    (hn : u32 npages ≠ 0) :
    allocKpages npages p = (0, p) ∨
      ∃ start, start + u32 npages ≤ p.coremap.count ∧
        (∀ k < u32 npages, (p.coremap.entries (start + k)).allocated = 0) ∧
        allocKpages npages p =
          (p.coremap.kvaddr start, { p with coremap := p.coremap.takeRun start (u32 npages) }) := by
  have hmax : max 1 (u32 npages) = u32 npages := by omega
  rcases getppages_cases hs (u32 npages) with hg | ⟨start,-,hle,hfree,hg⟩
  · exact Or.inl (by simp [allocKpages,hg])
  · rw [hmax] at hle hfree
    have hpos := Coremap.frameAddr_pos hs (i := start) (by omega)
    refine Or.inr ⟨start,hle,hfree,?_⟩
    simp [allocKpages,hg,Nat.ne_of_gt hpos,Coremap.kvaddr]

theorem allocatePhysicalPage_cases (p : Phys) :
    (allocatePhysicalPage p = none ∧
      ∀ i < p.coremap.count, (p.coremap.entries i).allocated ≠ 0) ∨
    ∃ i < p.coremap.count, (p.coremap.entries i).allocated = 0 ∧
      allocatePhysicalPage p = some (i,
        { p with coremap := p.coremap.setEntry i { p.coremap.entries i with allocated := 1 } }) := by
  unfold allocatePhysicalPage
  cases hf : (List.range p.coremap.count).find? fun i => (p.coremap.entries i).allocated = 0 with
  | none =>
    refine Or.inl ⟨by simp [hf],fun i hi => ?_⟩
    simpa using List.find?_eq_none.mp hf i (List.mem_range.mpr hi)
  | some i =>
    refine Or.inr ⟨i,List.mem_range.mp (List.mem_of_find?_eq_some hf),?_,by simp [hf]⟩
    simpa using List.find?_some hf

theorem vmBootstrap_eq {first last : Nat} (entries : Nat → CoremapEntry)
    (hle : first ≤ last) (htop : last ≤ 130048) :
    vmBootstrap ⟨first * 4096, last * 4096⟩ entries =
      { numofpage := u32 (((last - first : Nat) : Int) - ((last - first) / 256 + 1 : Nat))
        freePagesStr := (first + (last - first) / 256 + 1) * 4096
        coremapStr := first * 4096 + mipsKseg0
        entries := entries } := by
  have hfree : u32 (pageFrame (last * 4096) - pageFrame (first * 4096)) / 4096 = last - first := by
    unfold u32 pageFrame
    omega
  have hpages : u32 ((u32 ((last - first : Nat) * 16) : Int) / 4096 + 1) =
      (last - first) / 256 + 1 := by
    unfold u32
    omega
  have hframes : u32 ((pageFrame (first * 4096) : Int) + ((last - first) / 256 + 1 : Nat) * 4096) =
      (first + (last - first) / 256 + 1) * 4096 := by
    unfold u32 pageFrame
    omega
  have hmap : u32 ((first * 4096 : Nat) + mipsKseg0) = first * 4096 + mipsKseg0 := by
    unfold u32 mipsKseg0
    omega
  simp only [vmBootstrap,hfree,hpages,hframes,hmap]

theorem booted_count {c : Coremap} {first n : Nat} (hn : first + n ≤ 130048)
    (hs : c.coremapStr = first * 4096 + mipsKseg0)
    (hp : c.numofpage = u32 ((n : Int) - (n / 256 + 1 : Nat))) :
    c.count = n - (n / 256 + 1) := by
  unfold Coremap.count
  rw [hs,hp]
  unfold mipsKseg0
  cases n with
  | zero =>
    rw [show u32 (((0 : Nat) : Int) - (0 / 256 + 1 : Nat)) = 2 ^ 32 - 1 from rfl]
    unfold u32
    omega
  | succ n =>
    have hpages : u32 (((n + 1 : Nat) : Int) - ((n + 1) / 256 + 1 : Nat)) =
        n + 1 - ((n + 1) / 256 + 1) := by
      unfold u32
      omega
    rw [hpages]
    unfold u32
    omega

theorem vmBootstrap_sane {ram : Ram} (hram : ram.Accepted) (entries : Nat → CoremapEntry) :
    (vmBootstrap ram entries).Sane := by
  obtain ⟨firstpaddr,lastpaddr⟩ := ram
  obtain ⟨ha,hb,hle,htop⟩ := hram
  obtain ⟨first,rfl⟩ : ∃ first, firstpaddr = first * 4096 :=
    ⟨firstpaddr / 4096,by dsimp only at ha; omega⟩
  obtain ⟨last,rfl⟩ : ∃ last, lastpaddr = last * 4096 :=
    ⟨lastpaddr / 4096,by dsimp only at hb; omega⟩
  have hfl : first ≤ last := by dsimp only at hle; omega
  have hl : last ≤ 130048 := by dsimp only at htop; omega
  clear ha hb hle htop
  rw [vmBootstrap_eq entries hfl hl]
  refine ⟨?_,?_,?_,?_⟩
  · exact Nat.mul_mod_left _ _
  · exact Nat.mul_pos (Nat.succ_pos _) (by decide)
  · rw [@booted_count _ first (last - first) (by omega) rfl rfl]
    dsimp only
    omega
  · have hk : 0 < mipsKseg0 := by decide
    dsimp only
    omega

end OS161
