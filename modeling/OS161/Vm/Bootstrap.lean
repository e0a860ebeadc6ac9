import OS161.Vm.Coremap
import Mathlib.Data.List.Perm.Basic

namespace OS161

open Coremap

def fits (x : Int) : Option Nat := if 0 ≤ x ∧ x < 2 ^ 32 then some x.toNat else none

theorem fits_of_nat {x : Int} {n : Nat} (hx : x = n) (hn : n < 2 ^ 32) : fits x = some n := by
  subst hx
  unfold fits
  rw [if_pos (by omega),Int.toNat_natCast]

-- vm_bootstrap over the integers: it stops at the first value that does not fit in 32 bits.
def vmBootstrapExact (ram : Ram) (entries : Nat → CoremapEntry) : Option Coremap := do
  let coremapStr := pageFrame ram.firstpaddr
  let lastpage := pageFrame ram.lastpaddr
  let freepages := (← fits (lastpage - coremapStr)) / 4096
  let mapsize ← fits (freepages * 16)
  let coremapPages ← fits (mapsize / 4096 + 1)
  let coremapAddr ← fits (ram.firstpaddr + mipsKseg0)
  let arrayBytes ← fits (coremapPages * 4096)
  let freePagesStr ← fits (coremapStr + arrayBytes)
  let numofpage ← fits (freepages - coremapPages)
  some ⟨numofpage, freePagesStr, coremapAddr, entries⟩

section Layout
variable {ram : Ram}

theorem Ram.Accepted.frames (hram : ram.Accepted) :
    ∃ first last, ram = ⟨first * 4096, last * 4096⟩ ∧ first ≤ last ∧ last ≤ 130048 := by
  obtain ⟨firstpaddr,lastpaddr⟩ := ram
  obtain ⟨ha,hb,hle,htop⟩ := hram
  dsimp only at ha hb hle htop
  refine ⟨firstpaddr / 4096,lastpaddr / 4096,?_,by omega,by omega⟩
  rw [Ram.mk.injEq]
  omega

section Nonempty
variable {first last : Nat} (hlt : first < last) (htop : last ≤ 130048) (entries : Nat → CoremapEntry)
include hlt htop

theorem vmBootstrap_nonempty : vmBootstrap ⟨first * 4096, last * 4096⟩ entries =
    { numofpage := last - first - ((last - first) / 256 + 1)
      freePagesStr := (first + (last - first) / 256 + 1) * 4096
      coremapStr := first * 4096 + mipsKseg0
      entries := entries } := by
  have hnum : u32 (((last - first : Nat) : Int) - ((last - first) / 256 + 1 : Nat)) =
      last - first - ((last - first) / 256 + 1) := by
    unfold u32
    omega
  rw [vmBootstrap_eq entries (Nat.le_of_lt hlt) htop,hnum]

theorem vmBootstrapExact_nonempty : vmBootstrapExact ⟨first * 4096, last * 4096⟩ entries =
    some (vmBootstrap ⟨first * 4096, last * 4096⟩ entries) := by
  have hbytes : fits (pageFrame (last * 4096) - pageFrame (first * 4096)) =
      some ((last - first) * 4096) := by
    refine fits_of_nat ?_ (by omega)
    unfold pageFrame
    omega
  have hsize : fits (((last - first) * 4096 / 4096 : Nat) * 16) = some ((last - first) * 16) :=
    fits_of_nat (by omega) (by omega)
  have hpages : fits (((last - first) * 16 : Nat) / 4096 + 1) = some ((last - first) / 256 + 1) :=
    fits_of_nat (by omega) (by omega)
  have haddr : fits ((first * 4096 : Nat) + mipsKseg0) = some (first * 4096 + mipsKseg0) := by
    refine fits_of_nat (Int.natCast_add _ _).symm ?_
    unfold mipsKseg0
    omega
  have harray : fits (((last - first) / 256 + 1 : Nat) * 4096) =
      some (((last - first) / 256 + 1) * 4096) := fits_of_nat (by omega) (by omega)
  have hfree : fits (pageFrame (first * 4096) + (((last - first) / 256 + 1) * 4096 : Nat)) =
      some ((first + (last - first) / 256 + 1) * 4096) := by
    refine fits_of_nat ?_ (by omega)
    unfold pageFrame
    omega
  have hnum : fits (((last - first) * 4096 / 4096 : Nat) - ((last - first) / 256 + 1 : Nat)) =
      some (last - first - ((last - first) / 256 + 1)) := fits_of_nat (by omega) (by omega)
  rw [vmBootstrap_nonempty hlt htop]
  unfold vmBootstrapExact
  dsimp only
  rw [hbytes,Option.bind_eq_bind,Option.bind_some,hsize,Option.bind_some,hpages,
    Option.bind_some,haddr,Option.bind_some,harray,Option.bind_some,hfree,Option.bind_some,
    hnum,Option.bind_some]

end Nonempty

theorem count_vmBootstrap (hram : ram.Accepted) (hlt : ram.firstpaddr < ram.lastpaddr)
    (entries : Nat → CoremapEntry) :
    (vmBootstrap ram entries).count = (vmBootstrap ram entries).numofpage := by
  obtain ⟨first,last,rfl,hle,htop⟩ := hram.frames
  have hfl : first < last := by dsimp only at hlt; omega
  rw [@booted_count _ first (last - first) (by omega) (by rw [vmBootstrap_eq entries hle htop])
    (by rw [vmBootstrap_eq entries hle htop]),vmBootstrap_nonempty hfl htop]

theorem count_vmBootstrap_empty (hram : ram.Accepted) (heq : ram.firstpaddr = ram.lastpaddr)
    (entries : Nat → CoremapEntry) :
    (vmBootstrap ram entries).count = 0 ∧ 0 < (vmBootstrap ram entries).numofpage := by
  obtain ⟨first,last,rfl,hle,htop⟩ := hram.frames
  have hfl : last = first := by dsimp only at heq; omega
  subst hfl
  refine ⟨?_,?_⟩
  · rw [@booted_count _ last (last - last) (by omega) (by rw [vmBootstrap_eq entries hle htop])
      (by rw [vmBootstrap_eq entries hle htop])]
    omega
  · have hnum : 0 < u32 (((last - last : Nat) : Int) - ((last - last) / 256 + 1 : Nat)) := by
      rw [Nat.sub_self]
      decide
    rw [vmBootstrap_eq entries hle htop]
    exact hnum

theorem vm_bootstrap_layout (hfirst : ram.firstpaddr % pageSize = 0)
    (hlast : ram.lastpaddr % pageSize = 0) (hroom : ram.firstpaddr + pageSize ≤ ram.lastpaddr)
    (htop : ram.lastpaddr ≤ 508 * 1024 * 1024) (entries : Nat → CoremapEntry) :
    vmBootstrapExact ram entries = some (vmBootstrap ram entries) ∧
      (vmBootstrap ram entries).numofpage ≤ (ram.lastpaddr - ram.firstpaddr) / pageSize ∧
      (vmBootstrap ram entries).coremapStr = ram.firstpaddr + mipsKseg0 ∧
      ram.firstpaddr + 16 * (vmBootstrap ram entries).numofpage ≤
        (vmBootstrap ram entries).freePagesStr ∧
      ∀ i < (vmBootstrap ram entries).numofpage,
        (vmBootstrap ram entries).frameAddr i =
          (vmBootstrap ram entries).freePagesStr + i * pageSize ∧
        (vmBootstrap ram entries).freePagesStr + i * pageSize + pageSize ≤ ram.lastpaddr := by
  have hpage : pageSize = 4096 := rfl
  have hram : ram.Accepted := ⟨hfirst,hlast,by omega,htop⟩
  have hcount := count_vmBootstrap hram (by omega) entries
  have hsane := vmBootstrap_sane hram entries
  obtain ⟨first,last,rfl,hle,htop'⟩ := hram.frames
  have hlt : first < last := by dsimp only at hroom; omega
  refine ⟨vmBootstrapExact_nonempty hlt htop' entries,?_,?_,?_,fun i hi =>
    ⟨frameAddr_eq hsane (hcount ▸ hi),?_⟩⟩
  all_goals
    clear hsane hcount hram hroom htop hfirst hlast
    rw [vmBootstrap_nonempty hlt htop']
  · dsimp only
    rw [hpage]
    omega
  · dsimp only
    omega
  · rw [vmBootstrap_nonempty hlt htop'] at hi
    dsimp only at hi ⊢
    rw [hpage]
    omega

theorem vm_bootstrap_layout_exact_division :
    vmBootstrapExact ⟨0x40000, 0x140000⟩ (fun _ => ⟨0, 0, none, none⟩) =
      some (vmBootstrap ⟨0x40000, 0x140000⟩ fun _ => ⟨0, 0, none, none⟩) ∧
    (vmBootstrap ⟨0x40000, 0x140000⟩ fun _ => ⟨0, 0, none, none⟩).numofpage = 254 :=
  ⟨(vm_bootstrap_layout (by decide) (by decide) (by decide) (by decide) _).1,by decide⟩

end Layout

def Coremap.FreeRunAt (c : Coremap) (start npages : Nat) : Prop :=
  start + npages ≤ c.count ∧ ∀ k < npages, (c.entries (start + k)).allocated = 0

structure TakesRun (npages start : Nat) (p : Phys) (r : Nat × Phys) : Prop where
  addr : r.1 = p.coremap.freePagesStr + start * pageSize
  entries : ∀ i, r.2.coremap.entries i = { p.coremap.entries i with
    allocated := if start ≤ i ∧ i < start + npages then 1 else (p.coremap.entries i).allocated
    continuous := if i = start then (npages : Int) else (p.coremap.entries i).continuous }
  frames : p.coremap.SameFrames r.2.coremap
  ram : r.2.ram = p.ram

def FindsRun (npages : Nat) (p : Phys) : Prop :=
  ((getppages npages p).1 = 0 ∧ ¬ ∃ start, p.coremap.FreeRunAt start npages) ∨
    (getppages npages p).1 ≠ 0 ∧
      ∃ start, p.coremap.FreeRunAt start npages ∧ TakesRun npages start p (getppages npages p)

section
variable {c : Coremap} {p : Phys} {i npages : Nat}

theorem Coremap.allocated_below (h : i < c.firstUnallocated) : (c.entries i).allocated = 1 := by
  unfold firstUnallocated at h
  cases hf : (List.range c.count).find? fun i => (c.entries i).allocated ≠ 1 with
  | none =>
    rw [hf] at h
    simpa using List.find?_eq_none.mp hf i (List.mem_range.mpr h)
  | some j =>
    rw [hf] at h
    simpa using (List.find?_range_eq_some.mp hf).2.2 i h

theorem Coremap.allocated_first (h : c.firstUnallocated < c.count) :
    (c.entries c.firstUnallocated).allocated ≠ 1 := by
  unfold firstUnallocated at h ⊢
  cases hf : (List.range c.count).find? fun i => (c.entries i).allocated ≠ 1 with
  | none =>
    rw [hf] at h
    exact absurd h (Nat.lt_irrefl _)
  | some j => simpa using List.find?_some hf

theorem Coremap.firstUnallocated_eq (hi : i < c.count) (hfree : (c.entries i).allocated ≠ 1)
    (hbelow : ∀ j < i, (c.entries j).allocated = 1) : c.firstUnallocated = i := by
  rcases Nat.lt_trichotomy c.firstUnallocated i with hlt | heq | hgt
  · exact absurd (hbelow _ hlt) (allocated_first (by omega))
  · exact heq
  · exact absurd (allocated_below hgt) hfree

theorem getppages_spec (hs : p.coremap.Sane) (hn : 1 ≤ npages) :
    (¬ p.coremap.FreeRunAt p.coremap.firstUnallocated npages ∧ getppages npages p = (0, p)) ∨
      p.coremap.FreeRunAt p.coremap.firstUnallocated npages ∧
        getppages npages p = (p.coremap.frameAddr p.coremap.firstUnallocated,
          { p with coremap := p.coremap.takeRun p.coremap.firstUnallocated npages }) := by
  have hiff : p.coremap.freeRun npages (p.coremap.count - p.coremap.firstUnallocated)
      p.coremap.firstUnallocated 0 = true ↔
        p.coremap.FreeRunAt p.coremap.firstUnallocated npages := by
    rw [freeRun_iff,Nat.sub_zero,Nat.max_eq_right hn]
    exact and_congr_left fun _ => by omega
  by_cases hr : p.coremap.FreeRunAt p.coremap.firstUnallocated npages
  · exact .inr ⟨hr,by simp [getppages,hs.booted,hiff.mpr hr]⟩
  · exact .inl ⟨hr,by simp [getppages,hs.booted,mt hiff.mp hr]⟩

theorem takesRun_takeRun (hs : p.coremap.Sane) (hi : i < p.coremap.count) (npages : Nat) :
    TakesRun npages i p (p.coremap.frameAddr i, { p with coremap := p.coremap.takeRun i npages }) where
  addr := frameAddr_eq hs hi
  entries j := by
    have hall := p.coremap.takeRun_allocated i npages j
    have hcont := p.coremap.takeRun_continuous i npages j
    have has := p.coremap.takeRun_as i npages j
    have hpe := p.coremap.takeRun_pe i npages j
    cases he : (p.coremap.takeRun i npages).entries j with
    | mk allocated continuous as pe =>
      rw [he] at hall hcont has hpe
      dsimp only at hall hcont has hpe
      rw [hall,hcont,has,hpe]
  frames := p.coremap.sameFrames_takeRun i npages
  ram := rfl

theorem findsRun_iff (hs : p.coremap.Sane) (hn : 1 ≤ npages) : FindsRun npages p ↔
    ((∃ start, p.coremap.FreeRunAt start npages) → ∃ start, p.coremap.FreeRunAt start npages ∧
      ∀ i < start, (p.coremap.entries i).allocated = 1) := by
  have hfirst : ∀ {start}, p.coremap.FreeRunAt start npages →
      (∀ i < start, (p.coremap.entries i).allocated = 1) → p.coremap.firstUnallocated = start := by
    intro start hrun hbelow
    have hzero : (p.coremap.entries start).allocated = 0 := hrun.2 0 hn
    exact firstUnallocated_eq (Nat.lt_of_lt_of_le (by omega) hrun.1) (by omega) hbelow
  rcases getppages_spec hs hn with ⟨hno,hg⟩ | ⟨hrun,hg⟩
  · unfold FindsRun
    rw [hg]
    constructor
    · rintro (⟨-,hnone⟩ | ⟨hne,-⟩)
      · exact fun h => absurd h hnone
      · exact absurd rfl hne
    · intro h
      refine .inl ⟨rfl,fun hex => ?_⟩
      obtain ⟨start,hrun,hbelow⟩ := h hex
      exact hno (hfirst hrun hbelow ▸ hrun)
  · have hlt : p.coremap.firstUnallocated < p.coremap.count := Nat.lt_of_lt_of_le (by omega) hrun.1
    refine iff_of_true (.inr ⟨?_,_,hrun,?_⟩) fun _ => ⟨_,hrun,fun i => allocated_below⟩
    · rw [hg]
      exact Nat.ne_of_gt (frameAddr_pos hs hlt)
    · rw [hg]
      exact takesRun_takeRun hs hlt npages

end

theorem getppages_finds_run_iff {ram : Ram} (hram : ram.Accepted) (entries : Nat → CoremapEntry)
    {npages : Nat} (hn : 1 ≤ npages) :
    FindsRun npages ⟨ram, vmBootstrap ram entries⟩ ↔
      ((∃ start, (vmBootstrap ram entries).FreeRunAt start npages) →
        ∃ start, (vmBootstrap ram entries).FreeRunAt start npages ∧
          ∀ i < start, (entries i).allocated = 1) :=
  findsRun_iff (vmBootstrap_sane hram entries) hn

def smallRam : Ram := ⟨0x10000, 0x20000⟩

def zeroRam (_ : Nat) : CoremapEntry := ⟨0, 0, none, none⟩

theorem smallRam_accepted : smallRam.Accepted := ⟨by decide,by decide,by decide,by decide⟩

theorem getppages_finds_run_fresh : FindsRun 2 ⟨smallRam, vmBootstrap smallRam zeroRam⟩ :=
  (getppages_finds_run_iff smallRam_accepted zeroRam (by decide)).mpr fun _ =>
    ⟨0,⟨by decide,fun _ _ => rfl⟩,fun _ hi => absurd hi (Nat.not_lt_zero _)⟩

def fragmented : Phys :=
  let (a, p) := allocKpages 1 ⟨smallRam, vmBootstrap smallRam zeroRam⟩
  freeKpages a (allocKpages 1 p).2

theorem getppages_misses_run : (getppages 2 fragmented).1 = 0 ∧ fragmented.coremap.FreeRunAt 2 13 ∧
    ¬ FindsRun 2 fragmented := by
  have hzero : (getppages 2 fragmented).1 = 0 := by decide
  have hrun : fragmented.coremap.FreeRunAt 2 13 := ⟨by decide,by decide⟩
  refine ⟨hzero,hrun,?_⟩
  rintro (⟨-,hnone⟩ | ⟨hne,-⟩)
  · exact hnone ⟨2,by decide,fun k hk => hrun.2 k (by omega)⟩
  · exact hne hzero

inductive PageCall where
  | getppages
  | allocatePhysicalPage
  deriving DecidableEq, Repr

def onePage (p : Phys) : PageCall → Option (Nat × Phys)
  | .getppages =>
    let (addr, p) := getppages 1 p
    if addr = 0 then none else some (addr, p)
  | .allocatePhysicalPage =>
    (allocatePhysicalPage p).map fun (i, p') => (p.coremap.frameAddr i, p')

def takePages (p : Phys) : List PageCall → Option (List Nat × Phys)
  | [] => some ([], p)
  | call :: calls => do
    let (addr, p) ← onePage p call
    let (addrs, p) ← takePages p calls
    some (addr :: addrs, p)

def EachFrameOnce (p : Phys) : Prop :=
  ∀ calls : List PageCall, calls.length = p.coremap.numofpage →
    ∃ addrs p', takePages p calls = some (addrs, p') ∧
      addrs.Perm ((List.range p.coremap.numofpage).map p.coremap.frameAddr) ∧
      ∀ call, onePage p' call = none

structure Handed (p : Phys) (i : Nat) (p' : Phys) : Prop where
  bound : i < p.coremap.count
  free : (p.coremap.entries i).allocated = 0
  lowest : ∀ j < i, (p.coremap.entries j).allocated ≠ 0
  frames : p.coremap.SameFrames p'.coremap
  taken : ∀ j, (p'.coremap.entries j).allocated =
    if j = i then 1 else (p.coremap.entries j).allocated

section HandOut
variable {p p' : Phys} {call : PageCall} {calls : List PageCall} {addr k : Nat}

theorem onePage_cases (hs : p.coremap.Sane) (call : PageCall) :
    (onePage p call = none ∧ ∀ i < p.coremap.count, (p.coremap.entries i).allocated = 0 →
      ∃ j < i, (p.coremap.entries j).allocated ≠ 0 ∧ (p.coremap.entries j).allocated ≠ 1) ∨
    ∃ i p', onePage p call = some (p.coremap.frameAddr i, p') ∧ Handed p i p' := by
  cases call with
  | getppages =>
    rcases getppages_spec hs (Nat.le_refl 1) with ⟨hno,hg⟩ | ⟨hrun,hg⟩
    · refine .inl ⟨by simp [onePage,hg],fun i hi hfree => ?_⟩
      have hle : p.coremap.firstUnallocated ≤ i := by
        by_contra hlt
        have := allocated_below (Nat.lt_of_not_le hlt)
        omega
      have hfirst := allocated_first (Nat.lt_of_le_of_lt hle hi)
      have hbusy : (p.coremap.entries p.coremap.firstUnallocated).allocated ≠ 0 := fun h0 =>
        hno ⟨by omega,fun k hk => by rwa [Nat.lt_one_iff.mp hk]⟩
      exact ⟨_,Nat.lt_of_le_of_ne hle fun heq => hbusy (heq ▸ hfree),hbusy,hfirst⟩
    · have hlt : p.coremap.firstUnallocated < p.coremap.count := hrun.1
      have hpos := frameAddr_pos hs hlt
      refine .inr ⟨_,_,by simp [onePage,hg,Nat.ne_of_gt hpos]; rfl,hlt,hrun.2 0 Nat.one_pos,
        fun j hj => ?_,p.coremap.sameFrames_takeRun _ _,fun j => ?_⟩
      · rw [allocated_below hj]
        decide
      · rw [takeRun_allocated]
        exact if_congr (by omega) rfl rfl
  | allocatePhysicalPage =>
    unfold onePage
    cases hf : (List.range p.coremap.count).find? fun i => (p.coremap.entries i).allocated = 0 with
    | none =>
      refine .inl ⟨by simp [allocatePhysicalPage,hf],fun i hi hfree => ?_⟩
      exact absurd hfree (by simpa using List.find?_eq_none.mp hf i (List.mem_range.mpr hi))
    | some i =>
      obtain ⟨hfree,hmem,hbelow⟩ := List.find?_range_eq_some.mp hf
      refine .inr ⟨i,_,by simp [allocatePhysicalPage,hf]; rfl,List.mem_range.mp hmem,
        by simpa using hfree,fun j hj => by simpa using hbelow j hj,
        p.coremap.sameFrames_setEntry _ _,fun j => ?_⟩
      rw [entries_setEntry,Function.update_apply]
      split <;> rfl

theorem frameAddr_inj (hs : p.coremap.Sane) {i j : Nat} (hi : i < p.coremap.count)
    (hj : j < p.coremap.count) (h : p.coremap.frameAddr i = p.coremap.frameAddr j) : i = j := by
  rw [frameAddr_eq hs hi,frameAddr_eq hs hj] at h
  omega

theorem takePages_cons {r : List Nat × Phys} :
    takePages p (call :: calls) = some r ↔ ∃ addr q addrs p', onePage p call = some (addr, q) ∧
      takePages q calls = some (addrs, p') ∧ r = (addr :: addrs, p') := by
  simp only [takePages,Option.bind_eq_bind,Option.bind_eq_some_iff,Prod.exists,
    Option.some.injEq]
  constructor
  · rintro ⟨addr,q,hcall,addrs,p',hrest,rfl⟩
    exact ⟨addr,q,addrs,p',hcall,hrest,rfl⟩
  · rintro ⟨addr,q,addrs,p',hcall,hrest,rfl⟩
    exact ⟨addr,q,hcall,addrs,p',hrest,rfl⟩

theorem takePages_lowest (hs : p.coremap.Sane)
    (hk : ∀ i < p.coremap.count, (p.coremap.entries i).allocated = if i < k then 1 else 0)
    (hlen : k + calls.length ≤ p.coremap.count) :
    ∃ p', takePages p calls = some ((List.range' k calls.length).map p.coremap.frameAddr, p') ∧
      p.coremap.SameFrames p'.coremap ∧ ∀ i < p.coremap.count,
        (p'.coremap.entries i).allocated = if i < k + calls.length then 1 else 0 := by
  induction calls generalizing p k with
  | nil => exact ⟨p,rfl,.refl _,hk⟩
  | cons call calls ih =>
    rw [List.length_cons] at hlen ⊢
    have hfree : (p.coremap.entries k).allocated = 0 := by
      rw [hk k (by omega),if_neg (Nat.lt_irrefl k)]
    rcases onePage_cases hs call with ⟨-,hnone⟩ | ⟨i,q,hcall,hi⟩
    · obtain ⟨j,hj,-,hne⟩ := hnone k (by omega) hfree
      exact absurd ((hk j (by omega)).trans (if_pos hj)) hne
    · have heq : i = k := by
        rcases Nat.lt_trichotomy i k with hlt | heq | hgt
        · have := (hk i hi.bound).symm.trans hi.free
          rw [if_pos hlt] at this
          cases this
        · exact heq
        · exact absurd hfree (hi.lowest k hgt)
      subst heq
      have hnext : ∀ j < q.coremap.count,
          (q.coremap.entries j).allocated = if j < i + 1 then 1 else 0 := fun j hj => by
        rw [hi.taken,hk j (hi.frames.count ▸ hj)]
        split <;> split <;> first | rfl | omega
      obtain ⟨p',hrun,hframes,hall⟩ := ih (hi.frames.sane hs) hnext (by
        rw [hi.frames.count]
        omega)
      refine ⟨p',?_,hi.frames.trans hframes,fun j hj => ?_⟩
      · rw [hi.frames.frameAddr] at hrun
        exact takePages_cons.mpr ⟨_,q,_,p',hcall,hrun,rfl⟩
      · rw [hall j (hi.frames.count ▸ hj)]
        exact if_congr (by omega) rfl rfl

theorem takePages_avoids (hs : p.coremap.Sane) {j : Nat} (hj : j < p.coremap.count)
    (hbusy : (p.coremap.entries j).allocated ≠ 0) {addrs : List Nat}
    (h : takePages p calls = some (addrs, p')) : p.coremap.frameAddr j ∉ addrs := by
  induction calls generalizing p addrs with
  | nil =>
    cases h
    exact List.not_mem_nil
  | cons call calls ih =>
    obtain ⟨addr,q,rest,p'',hcall,hrest,heq⟩ := takePages_cons.mp h
    cases heq
    rcases onePage_cases hs call with ⟨hnone,-⟩ | ⟨i,q',hcall',hi⟩
    · rw [hnone] at hcall
      cases hcall
    · rw [hcall'] at hcall
      cases hcall
      have hne : j ≠ i := fun heq => hbusy (heq ▸ hi.free)
      have hstays : (q.coremap.entries j).allocated ≠ 0 := by
        rw [hi.taken,if_neg hne]
        exact hbusy
      have hrest' := ih (hi.frames.sane hs) (hi.frames.count ▸ hj) hstays hrest
      rw [hi.frames.frameAddr] at hrest'
      rw [List.mem_cons,not_or]
      exact ⟨fun heq => hne (frameAddr_inj hs hj hi.bound heq),hrest'⟩

theorem onePage_full (hs : p.coremap.Sane)
    (hfull : ∀ i < p.coremap.count, (p.coremap.entries i).allocated ≠ 0) (call : PageCall) :
    onePage p call = none := by
  rcases onePage_cases hs call with ⟨hnone,-⟩ | ⟨i,q,-,hi⟩
  · exact hnone
  · exact absurd hi.free (hfull i hi.bound)

end HandOut

theorem boot_hands_out_each_frame_iff {ram : Ram} (hram : ram.Accepted)
    (entries : Nat → CoremapEntry) :
    EachFrameOnce ⟨ram, vmBootstrap ram entries⟩ ↔ ram.firstpaddr < ram.lastpaddr ∧
      ∀ i < (vmBootstrap ram entries).numofpage, (entries i).allocated = 0 := by
  have hs : (Phys.mk ram (vmBootstrap ram entries)).coremap.Sane := vmBootstrap_sane hram entries
  constructor
  · intro honce
    have hlt : ram.firstpaddr < ram.lastpaddr := by
      refine Nat.lt_of_le_of_ne hram.ordered fun heq => ?_
      obtain ⟨hcount,hpos⟩ := count_vmBootstrap_empty hram heq entries
      obtain ⟨addrs,p',htake,-,-⟩ := honce _ (List.length_replicate (a := .getppages))
      obtain ⟨n,hn⟩ := Nat.exists_eq_succ_of_ne_zero (Nat.ne_of_gt hpos)
      rw [hn,List.replicate_succ] at htake
      obtain ⟨addr,q,rest,p'',hcall,-,-⟩ := takePages_cons.mp htake
      rw [onePage_full hs fun i hi => absurd hi (by rw [hcount]; exact Nat.not_lt_zero i)] at hcall
      cases hcall
    refine ⟨hlt,fun i hi => ?_⟩
    by_contra hbusy
    obtain ⟨addrs,p',htake,hperm,-⟩ := honce _ (List.length_replicate (a := .getppages))
    have hcount := count_vmBootstrap hram hlt entries
    refine takePages_avoids hs (hcount ▸ hi) hbusy htake (hperm.mem_iff.mpr ?_)
    exact List.mem_map_of_mem (List.mem_range.mpr hi)
  · rintro ⟨hlt,hzero⟩ calls hlen
    have hcount := count_vmBootstrap hram hlt entries
    obtain ⟨p',htake,hframes,hall⟩ := @takePages_lowest _ calls 0 hs
      (fun i hi => (hzero i (hcount ▸ hi)).trans (if_neg (Nat.not_lt_zero i)).symm)
      (by rw [Nat.zero_add,hlen]; exact Nat.le_of_eq hcount.symm)
    refine ⟨_,p',htake,?_,onePage_full (hframes.sane hs) fun i hi => ?_⟩
    · rw [hlen,List.range_eq_range']
    · have hi' : i < (vmBootstrap ram entries).count := hframes.count ▸ hi
      rw [hall i hi',if_pos (by rw [Nat.zero_add,hlen]; exact hcount ▸ hi')]
      decide

theorem boot_hands_out_each_frame_zeroed : EachFrameOnce ⟨smallRam, vmBootstrap smallRam zeroRam⟩ :=
  (boot_hands_out_each_frame_iff smallRam_accepted zeroRam).mpr ⟨by decide,fun _ _ => rfl⟩

def dirtyRam (i : Nat) : CoremapEntry := ⟨if i = 0 then 7 else 0, 0, none, none⟩

theorem boot_dirty_ram_has_no_page :
    onePage ⟨smallRam, vmBootstrap smallRam dirtyRam⟩ .getppages = none ∧
      ¬ EachFrameOnce ⟨smallRam, vmBootstrap smallRam dirtyRam⟩ := by
  have hnone : (onePage ⟨smallRam,vmBootstrap smallRam dirtyRam⟩ .getppages).isNone = true := by
    decide
  refine ⟨Option.isNone_iff_eq_none.mp hnone,fun honce => ?_⟩
  obtain ⟨addrs,p',htake,-,-⟩ := honce (List.replicate 15 .getppages) (by decide)
  obtain ⟨addr,q,rest,p'',hcall,-,-⟩ := takePages_cons.mp htake
  rw [Option.isNone_iff_eq_none.mp hnone] at hcall
  cases hcall

end OS161
