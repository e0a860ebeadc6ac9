import OS161.Kheap.KernelHeap
import OS161.Vm.KernelPages

namespace OS161.Kheap

open Holding

structure Kmem where
  sys : Sys
  client : Client

inductive KmemOp where
  | kmalloc (sz : Nat)
  | kfree (p : Nat)
  | write (x : Nat) (v : UInt8)
  | bootstrap (entries : Nat → CoremapEntry)
  | vm (op : VmOp)

-- The machine-side effect of the heap's own calls. Pages taken before vm_bootstrap are not in
-- the coremap, so only later ones are entered as live.
def callPages (s : Sys) : Kpages → Sys
  | .alloc npages _ =>
    let (a, phys) := allocKpages npages s.vm.phys
    { vm := { s.vm with phys := phys }
      live := if a = 0 ∨ s.vm.coremap.coremapStr = 0 then s.live
        else Function.update s.live a (some .client) }
  | .free a =>
    { vm := { s.vm with phys := freeKpages a s.vm.phys }
      live := Function.update s.live a none }

def Kpages.freed : Kpages → Option Nat
  | .alloc _ _ => none
  | .free a => some a

def kmallocCalls : Kern (Nat × Heap × List Kpages) → List Kpages
  | .ok (_, _, ks) => ks
  | .error _ => []

def kfreeCalls : Kern (Heap × List Kpages) → List Kpages
  | .ok (_, ks) => ks
  | .error _ => []

-- kmalloc and kfree are the only callers of alloc_kpages and free_kpages.
def callsPages : VmOp → Bool
  | .allocKpages _ => true
  | .freeKpages _ => true
  | _ => false

namespace Kmem

def start (ram : Ram) (tlb : Nat → TlbEntry) (mem : Bytes.Mem) : Kmem :=
  ⟨Boot.cold ram tlb, Client.boot mem⟩

abbrev phys (m : Kmem) : Phys := m.sys.vm.phys

def page (m : Kmem) (sz : Nat) : Nat := (allocKpages (pagesWanted sz) m.phys).1

def kmalloc (m : Kmem) (sz : Nat) : Kmem :=
  { sys := (kmallocCalls (Kheap.kmalloc m.client.heap sz (m.page sz))).foldl callPages m.sys
    client := m.client.kmalloc sz (m.page sz) }

def kfree (m : Kmem) (p : Nat) : Kmem :=
  { sys := (kfreeCalls (Kheap.kfree m.client.heap p)).foldl callPages m.sys
    client := m.client.kfree p }

def bootstrap (m : Kmem) (entries : Nat → CoremapEntry) : Kmem :=
  { m with sys := { m.sys with vm := { m.sys.vm with
      phys := ⟨m.phys.ram, vmBootstrap m.phys.ram entries⟩ } } }

def step (m : Kmem) (op : KmemOp) : Option Kmem :=
  if m.client.stopped ≠ none then none
  else
    match op with
    | .kmalloc sz => if sz < 2 ^ 32 then some (m.kmalloc sz) else none
    | .kfree p => if ∃ e ∈ m.client.live, e.1 = p then some (m.kfree p) else none
    | .write x v =>
      if m.client.writable x then some { m with client := m.client.write x v } else none
    | .bootstrap entries =>
      if m.phys.coremap.coremapStr = 0 then some (m.bootstrap entries) else none
    | .vm op =>
      if m.phys.coremap.coremapStr ≠ 0 ∧ callsPages op = false then
        (vmStep m.sys op).map fun sys => { m with sys := sys }
      else none

def Careful (m : Kmem) : KmemOp → Prop
  | .kmalloc sz => sz ≤ 2 ^ 32 - 4096 ∧ NoWrap m.phys (pagesWanted sz)
  | .kfree p => ∀ a ∈ (kfreeCalls (Kheap.kfree m.client.heap p)).filterMap Kpages.freed,
      m.phys.coremap.coremapStr ≠ 0 ∧ mipsKseg0 + m.phys.coremap.freePagesStr ≤ a
  | .vm op => op.disciplined
  | _ => True

end Kmem

def floor (s : Sys) : Nat :=
  if s.vm.coremap.coremapStr = 0 then s.vm.phys.ram.firstpaddr else s.vm.coremap.freePagesStr

def Backed (s : Sys) (r : Nat × Nat) : Prop :=
  r.1 + r.2 * pageSize ≤ mipsKseg0 + floor s ∨
    s.live r.1 = some .client ∧ headLength s.vm.coremap r.1 = r.2

structure Gives (m m' : Kmem) (p sz : Nat) : Prop where
  block : sz < largestSubpageSize → ∃ ps, Rep m'.client.heap ps ∧ ∃ q ∈ ps,
    Backed m'.sys (q.addr, 1) ∧ q.IsBlock p ∧ p ∉ q.free ∧ sz ≤ q.size ∧
      p + q.size ≤ q.addr + pageSize
  frames : largestSubpageSize ≤ sz → OwnsFrames m.phys m'.phys p ((sz + 4095) / 4096)
  apart : ∀ e ∈ m.client.live, e.1 ≠ p ∧ (p + sz ≤ e.1 ∨ e.1 + e.2 ≤ p)

def GivesAsked (m : Kmem) (sz : Nat) : Prop :=
  ∃ p h ks, Kheap.kmalloc m.client.heap sz (m.page sz) = .ok (p, h, ks) ∧
    (p = 0 ∨ Gives m (m.kmalloc sz) p sz)

def Usable (s : Sys) : Prop :=
  (∃ ram tlb, ram.Accepted ∧ s = Boot.cold ram tlb) ∨ ∃ own, Held s own

structure KmemOk (m : Kmem) : Prop where
  intact : ∃ ps, Intact m.client ps
  sys : Usable m.sys
  backed : ∀ r ∈ m.client.owned, Backed m.sys r

section Pages
variable {s s' : Sys} {own : Nat → Option Owner} {r : Nat × Nat}

theorem floor_booted (hb : s.vm.coremap.coremapStr ≠ 0) : floor s = s.vm.coremap.freePagesStr :=
  if_neg hb

theorem Usable.phys (hu : Usable s) :
    s.vm.coremap.coremapStr = 0 ∧ s.vm.phys.ram.Accepted ∨ s.vm.coremap.Sane := by
  rcases hu with ⟨ram,tlb,hram,rfl⟩ | ⟨own,hh⟩
  · exact .inl ⟨rfl,hram⟩
  · exact .inr hh.ledger.sane

theorem Usable.held (hu : Usable s) (hb : s.vm.coremap.coremapStr ≠ 0) : ∃ own, Held s own := by
  rcases hu with ⟨ram,tlb,-,rfl⟩ | hh
  · exact absurd rfl hb
  · exact hh

theorem Backed.step (hr : Backed s r) (hh : Held s own) {op : VmOp} (hd : op.disciplined)
    (hstep : vmStep s op = some s') (hop : op ≠ .freeKpages r.1) : Backed s' r := by
  obtain ⟨own',he⟩ := hh.step hd hstep
  rcases hr with hearly | ⟨hlive,hlen⟩
  · left
    rw [floor_booted hh.ledger.sane.booted] at hearly
    rwa [floor_booted he.held.ledger.sane.booted,he.frames.freePagesStr]
  · have hlive' := hh.keeps_client hd hstep hlive hop
    obtain ⟨⟨hnone,-⟩ | ⟨-,hsame⟩⟩ := hh.keeps_run hd hstep hlive' (by decide)
    · exact absurd (hnone.symm.trans hlive) (Option.some_ne_none _).symm
    · exact .inr ⟨hlive',hsame.trans hlen⟩

theorem callPages_alloc (hb : s.vm.coremap.coremapStr ≠ 0) (n addr : Nat) :
    vmStep s (.allocKpages n) = some (callPages s (.alloc n addr)) := by
  simp only [vmStep,callPages,hb,or_false]

theorem callPages_free {a : Nat} (hlive : s.live a = some .client) :
    vmStep s (.freeKpages a) = some (callPages s (.free a)) := by
  simp only [vmStep,callPages,hlive,if_true]

theorem late_apart (hh : Held s own) {start n : Nat} (hn : 0 < n)
    (hle : start + n ≤ s.vm.coremap.count)
    (hfree : ∀ k < n, (s.vm.coremap.entries (start + k)).allocated = 0)
    (hlive : s.live r.1 = some .client) (hlen : headLength s.vm.coremap r.1 = r.2) :
    s.vm.coremap.kvaddr start + n * pageSize ≤ r.1 ∨
      r.1 + r.2 * pageSize ≤ s.vm.coremap.kvaddr start := by
  obtain ⟨h,l,haddr,hl,hlle,hcont,hrun⟩ := hh.ledger.run hlive
  have hsane := hh.ledger.sane
  have hidx : kpageIndex s.vm.coremap r.1 = h := by
    rw [haddr,Coremap.kpageIndex_kvaddr hsane (by omega)]
  have hl2 : l = r.2 := by
    unfold headLength at hlen
    rw [hidx,hcont] at hlen
    exact Int.natCast_inj.mp hlen
  have hsep : start + n ≤ h ∨ h + l ≤ start := by
    by_contra hcon
    have hj : h ≤ max start h ∧ max start h < h + l := by omega
    have hbusy := (hh.ledger.bound ((hrun _).mpr hj)).2
    have hz := hfree (max start h - start) (by omega)
    rw [show start + (max start h - start) = max start h by omega] at hz
    exact absurd (hbusy.symm.trans hz) (by decide)
  rw [haddr,Coremap.kvaddr_eq hsane (by omega),Coremap.kvaddr_eq hsane (by omega)]
  unfold pageSize
  omega

structure Took (s s' : Sys) (a n : Nat) : Prop where
  usable : Usable s'
  kept : ∀ {r}, Backed s r → Backed s' r
  backed : a ≠ 0 → Backed s' (a, n)
  aligned : a ≠ 0 → a % pageSize = 0 ∧ a + n * pageSize < 2 ^ 32
  apart : a ≠ 0 → ∀ {r}, Backed s r → a + n * pageSize ≤ r.1 ∨ r.1 + r.2 * pageSize ≤ a

theorem took_early {ram : Ram} {tlb : Nat → TlbEntry} {n addr : Nat} (hram : ram.Accepted)
    (hlt : n < 2 ^ 32) (hwrap : NoWrap ⟨ram, Boot.coldCoremap⟩ n) :
    Took (Boot.cold ram tlb) (callPages (Boot.cold ram tlb) (.alloc n addr))
      (allocKpages n ⟨ram, Boot.coldCoremap⟩).1 n := by
  have hpage : OS161.pageSize = 4096 := rfl
  have hpage' : pageSize = 4096 := rfl
  have hu : u32 (n : Int) = n := u32_of_nat hlt
  have hearly : ∀ {r}, Backed (Boot.cold ram tlb) r →
      r.1 + r.2 * pageSize ≤ mipsKseg0 + ram.firstpaddr := by
    rintro r (h | ⟨hlive,-⟩)
    · exact h
    · cases hlive
  obtain ⟨hfirst,hlast,hordered,htop⟩ := hram
  have hcases := @allocKpages_early ⟨ram,Boot.coldCoremap⟩ n rfl ⟨hfirst,hlast,hordered,htop⟩
    (hu.symm ▸ hwrap)
  rw [hu] at hcases
  rcases hcases with ⟨-,hfull⟩ | ⟨hle,hgot⟩
  · have hsame : callPages (Boot.cold ram tlb) (.alloc n addr) = Boot.cold ram tlb := by
      unfold callPages
      dsimp only [Boot.cold]
      rw [hfull]
      rfl
    rw [hsame,hfull]
    exact ⟨.inl ⟨ram,tlb,⟨hfirst,hlast,hordered,htop⟩,rfl⟩,id,fun h => absurd rfl h,
      fun h => absurd rfl h,fun h => absurd rfl h⟩
  · have hnext : callPages (Boot.cold ram tlb) (.alloc n addr) =
        Boot.cold ⟨ram.firstpaddr + n * OS161.pageSize,ram.lastpaddr⟩ tlb := by
      unfold callPages
      dsimp only [Boot.cold]
      rw [hgot]
      exact congrArg (Sys.mk _) (if_pos (.inr rfl))
    rw [hnext,hgot]
    dsimp only at hle ⊢
    have haddr : ∀ {x : Nat}, (if ram.firstpaddr = 0 then 0 else x) ≠ 0 →
        (if ram.firstpaddr = 0 then 0 else x) = x := by
      intro x hx
      split
      · rename_i hzero
        exact absurd (if_pos hzero) hx
      · rfl
    have hram' : (Ram.mk (ram.firstpaddr + n * OS161.pageSize) ram.lastpaddr).Accepted :=
      ⟨by dsimp only; rw [hpage]; omega,hlast,hle,htop⟩
    refine ⟨.inl ⟨_,tlb,hram',rfl⟩,fun hr => .inl ?_,fun hne => .inl ?_,fun hne => ?_,
      fun hne {r} hr => ?_⟩
    · have := hearly hr
      refine this.trans (Nat.add_le_add_left ?_ _)
      exact Nat.le_add_right _ _
    · rw [haddr hne]
      refine Nat.le_of_eq ?_
      change ram.firstpaddr + mipsKseg0 + n * 4096 = mipsKseg0 + (ram.firstpaddr + n * 4096)
      omega
    · rw [hpage] at hle
      rw [haddr hne,hpage']
      unfold mipsKseg0
      omega
    · rw [haddr hne]
      have := hearly hr
      omega

theorem took_late (hh : Held s own) {n addr : Nat} (hn : 0 < n) (hlt : n < 2 ^ 32) :
    Took s (callPages s (.alloc n addr)) (allocKpages n s.vm.phys).1 n := by
  have hu : u32 (n : Int) = n := u32_of_nat hlt
  have hd : (VmOp.allocKpages n).disciplined := by
    change u32 (n : Int) ≠ 0
    rw [hu]
    exact Nat.ne_of_gt hn
  have hsane := hh.ledger.sane
  have hstep := @callPages_alloc s hsane.booted n addr
  obtain ⟨own',he⟩ := hh.step hd hstep
  have hkept : ∀ {r}, Backed s r → Backed (callPages s (.alloc n addr)) r := fun hr =>
    hr.step hh hd hstep (by simp)
  rcases allocKpages_cases hsane hd with hfull | ⟨start,hle,hfree,hgot⟩
  · rw [hfull]
    exact ⟨.inr ⟨own',he.held⟩,hkept,fun h => absurd rfl h,fun h => absurd rfl h,
      fun h => absurd rfl h⟩
  rw [hu] at hle hfree
  have hroom : start + n ≤ s.vm.coremap.count := hle
  have hstart : start < s.vm.coremap.count :=
    Nat.lt_of_lt_of_le (Nat.lt_add_of_pos_right hn) hle
  have hzero : (s.vm.coremap.entries start).allocated = 0 := hfree 0 hn
  have hfresh : s.live (s.vm.coremap.kvaddr start) = none :=
    hh.ledger.fresh hstart (by rw [hzero]; decide)
  have haddr : (allocKpages n s.vm.phys).1 = s.vm.coremap.kvaddr start := by
    rw [hgot]
  rw [haddr]
  refine ⟨.inr ⟨own',he.held⟩,hkept,fun hne => .inr ?_,fun _ => ?_,fun _ {r} hr => ?_⟩
  · have hlive : (callPages s (.alloc n addr)).live (s.vm.coremap.kvaddr start) = some .client := by
      unfold callPages
      dsimp only
      rw [hgot]
      rw [if_neg (not_or.mpr ⟨hne,hsane.booted⟩),Function.update_self]
    refine ⟨hlive,?_⟩
    obtain ⟨⟨-,hlen⟩ | ⟨hold,-⟩⟩ := hh.keeps_run hd hstep hlive (by decide)
    · exact hlen.trans (congrArg Nat.cast hu)
    · exact absurd (hfresh.symm.trans hold) (Option.some_ne_none _).symm
  · have hfits := hsane.fits
    have haligned := hsane.aligned
    rw [Coremap.kvaddr_eq hsane hstart]
    unfold mipsKseg0 pageSize
    omega
  · rcases hr with hearly | ⟨hlive,hlen⟩
    · right
      rw [floor_booted hsane.booted] at hearly
      rw [Coremap.kvaddr_eq hsane hstart]
      omega
    · exact late_apart hh hn hle hfree hlive hlen

theorem Usable.took (hu : Usable s) {n addr : Nat} (hn : 0 < n) (hlt : n < 2 ^ 32)
    (hwrap : NoWrap s.vm.phys n) :
    Took s (callPages s (.alloc n addr)) (allocKpages n s.vm.phys).1 n := by
  rcases hu with ⟨ram,tlb,hram,rfl⟩ | ⟨own,hh⟩
  · exact took_early hram hlt hwrap
  · exact took_late hh hn hlt

end Pages

section
variable {h h' : Heap} {sz page p : Nat} {ks : List Kpages}

theorem pagesWanted_spec (hsz : sz ≤ 2 ^ 32 - 4096) :
    0 < pagesWanted sz ∧ pagesWanted sz < 2 ^ 32 := by
  unfold pagesWanted
  split
  · rename_i hlo
    refine ⟨(npagesFor_spec hlo hsz).1,?_⟩
    rw [npagesFor_eq hsz]
    omega
  · decide

theorem kmalloc_calls (hok : Kheap.kmalloc h sz page = .ok (p, h', ks)) :
    ks = [] ∨ ks = [.alloc (pagesWanted sz) page] := by
  unfold Kheap.kmalloc at hok
  split at hok
  · rename_i hlo
    cases hok
    right
    unfold pagesWanted
    rw [if_pos hlo]
  · rename_i hlo
    rw [show pagesWanted sz = 1 from if_neg hlo]
    obtain ⟨blktype,-,hok⟩ := bind_ok hok
    obtain ⟨found,-,hok⟩ := bind_ok hok
    cases found with
    | some r =>
      obtain ⟨res,-,hok⟩ := bind_ok hok
      cases hok
      exact .inl rfl
    | none =>
      obtain ⟨ref,-,hok⟩ := bind_ok hok
      cases ref with
      | none =>
        cases hok
        exact .inl rfl
      | some r =>
        dsimp only at hok
        split at hok
        · obtain ⟨h₂,-,hok⟩ := bind_ok hok
          cases hok
          exact .inr rfl
        · obtain ⟨h₂,-,hok⟩ := bind_ok hok
          obtain ⟨res,-,hok⟩ := bind_ok hok
          cases hok
          exact .inr rfl

theorem kmalloc_run (hok : Kheap.kmalloc h sz page = .ok (p, h', ks))
    (hsz : largestSubpageSize ≤ sz) : p = page := by
  unfold Kheap.kmalloc at hok
  rw [if_pos hsz] at hok
  cases hok
  rfl

theorem Intact.kfree_calls {s : Client} {ps : List Page} {a : Nat} (hi : Intact s ps)
    (hmem : (a, sz) ∈ s.live) :
    ∃ h' ks, Kheap.kfree s.heap a = .ok (h', ks) ∧
      (ks = [] ∨ ∃ r ∈ s.owned, ks = [.free r.1]) := by
  rcases Nat.lt_or_ge sz largestSubpageSize with hlo | hlo
  · obtain ⟨q,hq,hblk,-⟩ := hi.tracks.small _ hmem hlo
    have hown := hi.tracks.pages q hq
    have hnot : a ∉ q.free := fun hin => (hi.tracks.free q hq a hblk).mp hin _ hmem rfl
    have hpos := hi.ptr_pos hmem
    obtain ⟨xs,ys,rfl⟩ := List.append_of_mem hq
    rcases subpageKfree_spec hi.rep hblk hnot with ⟨-,h',hok,-⟩ | ⟨-,h',hok,-⟩
    · exact ⟨h',_,kfree_of_subpage hpos hok,.inr ⟨_,hown,rfl⟩⟩
    · exact ⟨h',_,kfree_of_subpage hpos hok,.inl rfl⟩
  · exact ⟨_,_,hi.kfree_run hmem hlo,.inr ⟨_,(hi.tracks.big _ hmem hlo).1,rfl⟩⟩

end

section Steps
variable {m m' : Kmem} {sz : Nat} {op : KmemOp}

theorem KmemOk.phys (hok : KmemOk m) :
    m.phys.coremap.coremapStr = 0 ∧ m.phys.ram.Accepted ∨ m.phys.coremap.Sane :=
  hok.sys.phys

theorem KmemOk.careful_of_le (hok : KmemOk m) (hsz : sz ≤ 2 ^ 31) : m.Careful (.kmalloc sz) := by
  have hle : sz ≤ 2 ^ 32 - 4096 := by omega
  have hwant : pagesWanted sz * 4096 ≤ 2 ^ 31 + 4095 := by
    unfold pagesWanted
    rw [npagesFor_eq hle]
    split <;> omega
  refine ⟨hle,fun hcold => ?_⟩
  rcases hok.phys with ⟨-,hram⟩ | hs
  · have hordered := hram.ordered
    have htop := hram.top
    rw [show OS161.pageSize = 4096 from rfl]
    omega
  · exact absurd hcold hs.booted

section
variable (hok : KmemOk m) (hc : m.Careful (.kmalloc sz))
include hok hc

theorem KmemOk.took :
    Took m.sys (callPages m.sys (.alloc (pagesWanted sz) (m.page sz))) (m.page sz)
      (pagesWanted sz) := by
  obtain ⟨hn,hlt⟩ := pagesWanted_spec hc.1
  exact hok.sys.took hn hlt hc.2

theorem KmemOk.grants : m.client.grants (pagesWanted sz) (m.page sz) = true := by
  have ht := hok.took hc
  refine decide_eq_true ?_
  rcases eq_or_ne (m.page sz) 0 with hzero | hne
  · exact .inl hzero
  · obtain ⟨haligned,htop⟩ := ht.aligned hne
    exact .inr ⟨haligned,htop,fun r hr => ht.apart hne (hok.backed r hr)⟩

theorem KmemOk.kmalloc :
    KmemOk (m.kmalloc sz) ∧
      ∃ p h ks, Kheap.kmalloc m.client.heap sz (m.page sz) = .ok (p, h, ks) ∧
        (m.kmalloc sz).sys = ks.foldl callPages m.sys ∧
        (m.kmalloc sz).client.live =
          if p = 0 then m.client.live else (p, sz) :: m.client.live := by
  have ht := hok.took hc
  obtain ⟨ps,hi⟩ := hok.intact
  obtain ⟨ps',hi',-⟩ := hi.kmalloc hc.1 (hok.grants hc)
  cases hres : Kheap.kmalloc m.client.heap sz (m.page sz) with
  | error e =>
    have hrun := hi'.running
    unfold Client.kmalloc at hrun
    rw [hres] at hrun
    cases hrun
  | ok res =>
    obtain ⟨p,h,ks⟩ := res
    have hsys : (m.kmalloc sz).sys = ks.foldl callPages m.sys := by
      unfold Kmem.kmalloc
      rw [hres]
      rfl
    have hclient : (m.kmalloc sz).client =
        { m.client with heap := h, owned := ks.foldl Kpages.apply m.client.owned,
                        live := if p = 0 then m.client.live else (p, sz) :: m.client.live } := by
      unfold Kmem.kmalloc Client.kmalloc
      rw [hres]
    refine ⟨⟨⟨ps',hi'⟩,?_,?_⟩,p,h,ks,rfl,hsys,by rw [hclient]⟩
    · rw [hsys]
      rcases kmalloc_calls hres with rfl | rfl
      · exact hok.sys
      · exact ht.usable
    · rw [hsys,hclient]
      rcases kmalloc_calls hres with rfl | rfl
      · exact hok.backed
      · intro r hr
        simp only [List.foldl_cons,List.foldl_nil,Kpages.apply] at hr
        split at hr
        · exact ht.kept (hok.backed r hr)
        · rename_i hne
          rcases List.mem_cons.mp hr with rfl | hr
          · exact ht.backed hne
          · exact ht.kept (hok.backed r hr)

theorem KmemOk.frames (hsz : largestSubpageSize ≤ sz) (hne : m.page sz ≠ 0) :
    OwnsFrames m.phys (m.kmalloc sz).phys (m.page sz) ((sz + 4095) / 4096) := by
  obtain ⟨hn,hlt⟩ := pagesWanted_spec hc.1
  have hu : u32 (pagesWanted sz : Int) = pagesWanted sz := u32_of_nat hlt
  have hwant : pagesWanted sz = (sz + 4095) / 4096 := (if_pos hsz).trans (npagesFor_eq hc.1)
  have howns := (allocKpages_owns_iff hok.phys (pagesWanted sz)).mpr
    (.inr (hu.symm ▸ ⟨hn,hc.2⟩)) hne
  rw [hu,Nat.max_eq_left hn,hwant] at howns
  have hphys : (m.kmalloc sz).phys = (allocKpages (pagesWanted sz) m.phys).2 := by
    unfold Kmem.kmalloc Kheap.kmalloc
    rw [if_pos hsz,show npagesFor sz = pagesWanted sz from (if_pos hsz).symm]
    rfl
  rw [hphys,hwant,show m.page sz = (allocKpages ((sz + 4095) / 4096 : Nat) m.phys).1 from
    hwant ▸ rfl]
  exact howns

theorem KmemOk.givesAsked : GivesAsked m sz := by
  obtain ⟨hok',p,h,ks,hres,-,hlive⟩ := hok.kmalloc hc
  refine ⟨p,h,ks,hres,?_⟩
  rcases eq_or_ne p 0 with hzero | hne
  · exact .inl hzero
  right
  rw [if_neg hne] at hlive
  obtain ⟨ps,hi⟩ := hok'.intact
  have ht := hi.tracks
  have hmem : (p, sz) ∈ (m.kmalloc sz).client.live := hlive ▸ List.mem_cons_self
  refine ⟨fun hsz => ?_,fun hsz => ?_,fun e he => ?_⟩
  · obtain ⟨q,hq,hblk,hle⟩ := ht.small _ hmem hsz
    exact ⟨ps,hi.rep,q,hq,hok'.backed _ (ht.pages q hq),hblk,
      fun hin => (ht.free q hq p hblk).mp hin _ hmem rfl,hle,block_fits (ht.type q hq) hblk⟩
  · have hp : p = m.page sz := kmalloc_run hres hsz
    rw [hp] at hne ⊢
    exact hok.frames hc hsz hne
  · have hnd := ht.nodup
    have hap := ht.live_apart
    rw [hlive] at hnd hap
    refine ⟨fun heq => ?_,(List.pairwise_cons.mp hap).1 e he⟩
    exact (List.nodup_cons.mp hnd).1 (List.mem_map.mpr ⟨e,he,heq⟩)

end

theorem KmemOk.careful_of_gives (hok : KmemOk m) (hg : GivesAsked m sz) :
    m.Careful (.kmalloc sz) ∨ m.page sz = 0 := by
  have hpage : OS161.pageSize = 4096 := rfl
  obtain ⟨p,h,ks,hres,hgives⟩ := hg
  rcases Nat.lt_or_ge sz largestSubpageSize with hsz | hsz
  · exact .inl (hok.careful_of_le (Nat.le_of_lt (hsz.trans (by decide))))
  · have hp : p = m.page sz := kmalloc_run hres hsz
    rcases hgives with hzero | hgives
    · exact .inr (hp.symm.trans hzero)
    left
    have howns := hgives.frames hsz
    rcases hok.phys with ⟨hcold,hram⟩ | hs
    · obtain ⟨-,-,hroom⟩ := howns.early hcold
      have htop := hram.top
      rw [hpage] at hroom
      have hle : sz ≤ 2 ^ 32 - 4096 := by omega
      refine ⟨hle,fun _ => ?_⟩
      rw [show pagesWanted sz = (sz + 4095) / 4096 from (if_pos hsz).trans (npagesFor_eq hle),
        hpage]
      omega
    · obtain ⟨i,-,hroom,-⟩ := howns.late hs.booted
      have hfits := hs.fits
      exact ⟨by omega,fun hcold => absurd hcold hs.booted⟩

theorem KmemOk.kfree (hok : KmemOk m) {a : Nat} (hmem : (a, sz) ∈ m.client.live)
    (hc : m.Careful (.kfree a)) : KmemOk (m.kfree a) := by
  obtain ⟨ps,hi⟩ := hok.intact
  obtain ⟨ps',hi',-⟩ := hi.kfree hmem
  obtain ⟨h',ks,hres,hks⟩ := hi.kfree_calls hmem
  have hsys : (m.kfree a).sys = ks.foldl callPages m.sys := by
    unfold Kmem.kfree
    rw [hres]
    rfl
  have howned : (m.kfree a).client.owned = ks.foldl Kpages.apply m.client.owned := by
    unfold Kmem.kfree Client.kfree
    rw [hres]
  rcases hks with rfl | ⟨r,hr,rfl⟩
  · refine ⟨⟨ps',hi'⟩,?_,?_⟩
    · rw [hsys]
      exact hok.sys
    · rw [hsys,howned]
      exact hok.backed
  · have hlate : m.phys.coremap.coremapStr ≠ 0 ∧
        mipsKseg0 + m.phys.coremap.freePagesStr ≤ r.1 := by
      refine hc r.1 ?_
      rw [hres]
      exact List.mem_cons_self
    obtain ⟨own,hh⟩ := hok.sys.held hlate.1
    have hlive : m.sys.live r.1 = some .client := by
      rcases hok.backed r hr with hearly | ⟨hlive,-⟩
      · have hsome := (hi.tracks.ok r hr).some
        have hpage : pageSize = 4096 := rfl
        have hlo : mipsKseg0 + m.sys.vm.coremap.freePagesStr ≤ r.1 := hlate.2
        rw [floor_booted hlate.1,hpage] at hearly
        omega
      · exact hlive
    have hstep := callPages_free hlive
    have hd : (VmOp.freeKpages r.1).disciplined := trivial
    obtain ⟨own',he⟩ := hh.step hd hstep
    refine ⟨⟨ps',hi'⟩,?_,?_⟩
    · rw [hsys]
      exact .inr ⟨own',he.held⟩
    · rw [hsys,howned]
      intro r' hr'
      simp only [List.foldl_cons,List.foldl_nil,Kpages.apply,List.mem_filter,
        decide_eq_true_eq] at hr'
      refine (hok.backed r' hr'.1).step hh hd hstep ?_
      rw [ne_eq,VmOp.freeKpages.injEq]
      exact fun heq => hr'.2 heq.symm

theorem KmemOk.bootstrap (hok : KmemOk m) (hcold : m.phys.coremap.coremapStr = 0)
    (entries : Nat → CoremapEntry) : KmemOk (m.bootstrap entries) := by
  obtain ⟨sys,client⟩ := m
  rcases hok.sys with ⟨ram,tlb,hram,rfl⟩ | ⟨own,hh⟩
  · have hheld := held_boot hram entries tlb
    refine ⟨hok.intact,.inr ⟨_,hheld⟩,fun r hr => ?_⟩
    have hfloor : ram.firstpaddr ≤ (vmBootstrap ram entries).freePagesStr := by
      obtain ⟨first,last,rfl,hle,htop⟩ := hram.frames
      rw [vmBootstrap_eq entries hle htop]
      dsimp only
      omega
    have hb : (vmBootstrap ram entries).coremapStr ≠ 0 := hheld.ledger.sane.booted
    rcases hok.backed r hr with hearly | ⟨hlive,-⟩
    · refine .inl (hearly.trans (Nat.add_le_add_left ?_ _))
      exact hfloor.trans (Nat.le_of_eq (if_neg hb).symm)
    · cases hlive
  · exact absurd hcold hh.ledger.sane.booted

theorem KmemOk.step (hok : KmemOk m) (hc : m.Careful op) (hstep : m.step op = some m') :
    KmemOk m' := by
  obtain ⟨ps,hi⟩ := hok.intact
  unfold Kmem.step at hstep
  rw [if_neg (not_not.mpr hi.running)] at hstep
  cases op with
  | kmalloc sz =>
    dsimp only at hstep
    split at hstep
    · cases hstep
      exact (hok.kmalloc hc).1
    · cases hstep
  | kfree p =>
    obtain ⟨hguard,⟨⟩⟩ := Option.ite_none_right_eq_some.mp hstep
    obtain ⟨e,he,rfl⟩ := hguard
    exact hok.kfree he hc
  | write x v =>
    obtain ⟨hguard,⟨⟩⟩ := Option.ite_none_right_eq_some.mp hstep
    exact ⟨⟨ps,hi.write hguard⟩,hok.sys,hok.backed⟩
  | bootstrap entries =>
    obtain ⟨hcold,⟨⟩⟩ := Option.ite_none_right_eq_some.mp hstep
    exact hok.bootstrap hcold entries
  | vm op =>
    obtain ⟨hguard,hstep⟩ := Option.ite_none_right_eq_some.mp hstep
    obtain ⟨sys,hsys,rfl⟩ := Option.map_eq_some_iff.mp hstep
    obtain ⟨own,hh⟩ := hok.sys.held hguard.1
    obtain ⟨own',he⟩ := hh.step hc hsys
    refine ⟨hok.intact,.inr ⟨own',he.held⟩,fun r hr => ?_⟩
    refine (hok.backed r hr).step hh hc hsys ?_
    rintro rfl
    cases hguard.2

theorem kmemOk_start {ram : Ram} (hram : ram.Accepted) (tlb : Nat → TlbEntry) (mem : Bytes.Mem) :
    KmemOk (.start ram tlb mem) :=
  ⟨⟨[],intact_boot mem⟩,.inl ⟨ram,tlb,hram,rfl⟩,fun _ hr => absurd hr List.not_mem_nil⟩

theorem kmemOk_along {ram : Ram} (hram : ram.Accepted) {tlb : Nat → TlbEntry} {mem : Bytes.Mem}
    {ops : List KmemOp} (hc : Run.Along Kmem.step Kmem.Careful (.start ram tlb mem) ops)
    (hrun : Run.exec Kmem.step (.start ram tlb mem) ops = some m) : KmemOk m := by
  refine Run.invariant (I := KmemOk) ?_ (kmemOk_start hram tlb mem) hc hrun
  exact fun m op m' hok hc hstep => hok.step hc hstep

end Steps

theorem kmalloc_gives_asked_iff {ram : Ram} (hram : ram.Accepted) {tlb : Nat → TlbEntry}
    {mem : Bytes.Mem} {ops : List KmemOp} {m : Kmem}
    (hc : Run.Along Kmem.step Kmem.Careful (.start ram tlb mem) ops)
    (hrun : Run.exec Kmem.step (.start ram tlb mem) ops = some m) :
    (∀ sz < 2 ^ 32, GivesAsked m sz ↔
      (sz ≤ 2 ^ 32 - 4096 ∧ NoWrap m.phys (pagesWanted sz)) ∨ m.page sz = 0) ∧
    ∀ npages : Int, ((allocKpages npages m.phys).1 ≠ 0 →
        OwnsFrames m.phys (allocKpages npages m.phys).2 (allocKpages npages m.phys).1
          (max (u32 npages) 1)) ↔
      (allocKpages npages m.phys).1 = 0 ∨ 0 < u32 npages ∧ NoWrap m.phys (u32 npages) := by
  have hok := kmemOk_along hram hc hrun
  refine ⟨fun sz _ => ⟨hok.careful_of_gives,?_⟩,allocKpages_owns_iff hok.phys⟩
  rintro (hcareful | hzero)
  · exact hok.givesAsked hcareful
  · rcases Nat.lt_or_ge sz largestSubpageSize with hsz | hsz
    · exact hok.givesAsked (hok.careful_of_le (Nat.le_of_lt (hsz.trans (by decide))))
    · refine ⟨0,m.client.heap,[.alloc (npagesFor sz) 0],?_,.inl rfl⟩
      rw [hzero]
      exact if_pos hsz

theorem kmalloc_gives_asked_three_pages :
    ∃ m, Run.exec Kmem.step (.start smallRam tlbInvalid fun _ => 0)
        [.kmalloc 100, .bootstrap zeroRam, .kmalloc 5000] = some m ∧
      m.page 10000 = 0x80014000 ∧ GivesAsked m 10000 ∧
      OwnsFrames m.phys (allocKpages 3 m.phys).2 0x80014000 3 := by
  have hview : (Run.exec Kmem.step (.start smallRam tlbInvalid fun _ => 0)
      [.kmalloc 100,.bootstrap zeroRam,.kmalloc 5000]).map
        (fun m => (m.page 10000, (allocKpages 3 m.phys).1, m.phys.coremap.coremapStr == 0)) =
      some (0x80014000, 0x80014000, false) := by decide +kernel
  obtain ⟨m,hrun,heq⟩ := Option.map_eq_some_iff.mp hview
  simp only [Prod.mk.injEq,beq_eq_false_iff_ne] at heq
  obtain ⟨hpage,haddr,hbooted⟩ := heq
  have hcareful : Run.Along Kmem.step Kmem.Careful (.start smallRam tlbInvalid fun _ => 0)
      [.kmalloc 100,.bootstrap zeroRam,.kmalloc 5000] := by
    refine Run.along_imp (P := fun _ op => ∀ m, KmemOk m → m.Careful op) (I := KmemOk)
      (fun m op m' hok hp hstep => hok.step (hp m hok) hstep) (fun m op hok hp => hp m hok)
      (kmemOk_start smallRam_accepted _ _) (Run.along_of_forall fun op hop m hok => ?_)
    simp only [List.mem_cons,List.not_mem_nil,or_false] at hop
    rcases hop with rfl | rfl | rfl
    · exact hok.careful_of_le (by decide)
    · trivial
    · exact hok.careful_of_le (by decide)
  obtain ⟨hgives,howns⟩ := kmalloc_gives_asked_iff smallRam_accepted hcareful hrun
  refine ⟨m,hrun,hpage,(hgives 10000 (by decide)).mpr (.inl ⟨by decide,fun hcold =>
    absurd hcold hbooted⟩),?_⟩
  have hthree := (howns 3).mpr (.inr ⟨by decide,fun hcold => absurd hcold hbooted⟩)
  rw [haddr] at hthree
  exact hthree (by decide)

theorem kmalloc_gives_nothing :
    ∃ m, Run.exec Kmem.step (.start smallRam tlbInvalid fun _ => 0) [.bootstrap zeroRam] = some m ∧
      pagesWanted 0xfffff001 = 0 ∧ m.page 0xfffff001 = 0x80011000 ∧
      Kheap.kmalloc m.client.heap 0xfffff001 0x80011000 =
        .ok (0x80011000, m.client.heap, [.alloc 0 0x80011000]) ∧
      (∀ i < 15, ((m.kmalloc 0xfffff001).phys.coremap.entries i).allocated = 0) ∧
      (m.kmalloc 0xfffff001).page 4096 = 0x80011000 ∧ ¬ GivesAsked m 0xfffff001 := by
  have hview : (Run.exec Kmem.step (.start smallRam tlbInvalid fun _ => 0)
      [.bootstrap zeroRam]).map (fun m => (m.page 0xfffff001,
        (List.range 15).all fun i => ((m.kmalloc 0xfffff001).phys.coremap.entries i).allocated = 0,
        (m.kmalloc 0xfffff001).page 4096)) = some (0x80011000, true, 0x80011000) := by
    decide +kernel
  obtain ⟨m,hrun,heq⟩ := Option.map_eq_some_iff.mp hview
  simp only [Prod.mk.injEq,List.all_eq_true,List.mem_range,decide_eq_true_eq] at heq
  obtain ⟨hpage,hfree,hagain⟩ := heq
  have hcareful : Run.Along Kmem.step Kmem.Careful (.start smallRam tlbInvalid fun _ => 0)
      [.bootstrap zeroRam] := ⟨trivial,fun _ _ => trivial⟩
  have hok : KmemOk m := kmemOk_along smallRam_accepted hcareful hrun
  refine ⟨m,hrun,by decide,hpage,rfl,hfree,hagain,fun hgives => ?_⟩
  rcases hok.careful_of_gives hgives with ⟨hle,-⟩ | hzero
  · exact absurd hle (by decide)
  · rw [hpage] at hzero
    cases hzero

end OS161.Kheap
