import OS161.Vm.Tlb
import OS161.Vm.Bootstrap

namespace OS161

def IsInt32 (x : Int) : Prop := -2 ^ 31 ≤ x ∧ x < 2 ^ 31

def sbrks (sizes : List Int) (sp : AddrSpace) : AddrSpace :=
  sizes.foldl (fun sp size => (sysSbrk size sp).2) sp

structure HeapBounds (start : Nat) (sp : AddrSpace) : Prop where
  fixed : sp.heapStart = start
  low : start ≤ sp.heapEnd
  high : sp.heapEnd ≤ start + heapSize

def SbrkRefused (size : Int) (sp : AddrSpace) : Prop :=
  mallocLimit ≤ size ∨ (sp.heapEnd : Int) + size < sp.heapStart ∨
    (sp.heapStart + heapSize : Nat) < (sp.heapEnd : Int) + size

section
variable {start : Nat} {size : Int} {sizes : List Int} {sp : AddrSpace}

theorem sysSbrk_spec (htop : start ≤ usertop) (hb : HeapBounds start sp) (hsize : IsInt32 size) :
    (SbrkRefused size sp ∧ sysSbrk size sp = (-1, sp)) ∨
      ¬ SbrkRefused size sp ∧ ∃ newheap : Nat, (newheap : Int) = sp.heapEnd + size ∧
        sysSbrk size sp = (offT sp.heapEnd, { sp with heapEnd := newheap }) := by
  obtain ⟨hstart,hlow,hhigh⟩ := hb
  obtain ⟨hmin,hmax⟩ := hsize
  unfold usertop mipsKseg0 at htop
  unfold heapSize at hhigh
  unfold SbrkRefused sysSbrk heapSize
  by_cases hlimit : mallocLimit ≤ size
  · exact .inl ⟨.inl hlimit,if_pos hlimit⟩
  rw [if_neg hlimit]
  by_cases hin : sp.heapStart ≤ (sp.heapEnd : Int) + size ∧
      (sp.heapEnd : Int) + size ≤ (sp.heapStart + 0x500000 : Nat)
  · have hnew : u32 (sp.heapEnd + size) = ((sp.heapEnd : Int) + size).toNat := by
      unfold u32
      omega
    have hroom : ¬ 0x500000 < u32 (u32 (sp.heapEnd + size) - sp.heapStart) := by
      rw [hnew]
      unfold u32
      omega
    refine .inr ⟨by omega,u32 (sp.heapEnd + size),by omega,?_⟩
    rw [if_neg hroom]
  · have hout : 0x500000 < u32 (u32 (sp.heapEnd + size) - sp.heapStart) := by
      unfold u32
      omega
    refine .inl ⟨by omega,?_⟩
    rw [if_pos hout]

theorem HeapBounds.sbrk (htop : start ≤ usertop) (hb : HeapBounds start sp) (hsize : IsInt32 size) :
    HeapBounds start (sysSbrk size sp).2 := by
  rcases sysSbrk_spec htop hb hsize with ⟨-,heq⟩ | ⟨hok,newheap,hnew,heq⟩
  · rw [heq]
    exact hb
  · rw [heq]
    unfold SbrkRefused at hok
    have hstart := hb.fixed
    exact ⟨hstart,by dsimp only; omega,by dsimp only; omega⟩

theorem HeapBounds.sbrks (htop : start ≤ usertop) (hb : HeapBounds start sp)
    (hsizes : ∀ size ∈ sizes, IsInt32 size) : HeapBounds start (sbrks sizes sp) := by
  induction sizes generalizing sp with
  | nil => exact hb
  | cons size sizes ih =>
    rw [List.forall_mem_cons] at hsizes
    exact ih (hb.sbrk htop hsizes.1) hsizes.2

end

theorem sbrk_keeps_bounds {sp : AddrSpace} (hempty : sp.heapStart = sp.heapEnd)
    (htop : sp.heapEnd ≤ usertop) {sizes : List Int} (hsizes : ∀ size ∈ sizes, IsInt32 size)
    {size : Int} (hsize : IsInt32 size) {cur next : AddrSpace} {ret : Int}
    (hcur : sbrks sizes sp = cur) (hcall : sysSbrk size cur = (ret, next)) :
    cur.heapStart = sp.heapStart ∧ next.heapStart = sp.heapStart ∧
      (cur.heapStart ≤ cur.heapEnd ∧ cur.heapEnd ≤ cur.heapStart + heapSize) ∧
      (next.heapStart ≤ next.heapEnd ∧ next.heapEnd ≤ next.heapStart + heapSize) ∧
      (ret = -1 ↔ SbrkRefused size cur) ∧ (ret = -1 → next.heapEnd = cur.heapEnd) ∧
      (ret ≠ -1 → u32 ret = cur.heapEnd ∧ (next.heapEnd : Int) = cur.heapEnd + size) := by
  rw [← hempty] at htop
  have hzero : HeapBounds sp.heapStart sp := ⟨rfl,Nat.le_of_eq hempty,by omega⟩
  have hb : HeapBounds sp.heapStart cur := hcur ▸ hzero.sbrks htop hsizes
  have hb' : HeapBounds sp.heapStart next := by
    have := hb.sbrk htop hsize
    rwa [hcall] at this
  have hrange : cur.heapEnd ≤ 0x80500000 := by
    have := hb.high
    unfold usertop mipsKseg0 at htop
    unfold heapSize at this
    omega
  refine ⟨hb.fixed,hb'.fixed,⟨hb.fixed ▸ hb.low,hb.fixed ▸ hb.high⟩,
    ⟨hb'.fixed ▸ hb'.low,hb'.fixed ▸ hb'.high⟩,?_⟩
  rcases sysSbrk_spec htop hb hsize with ⟨hno,heq⟩ | ⟨hok,newheap,hnew,heq⟩
  · rw [heq] at hcall
    cases hcall
    exact ⟨iff_of_true rfl hno,fun _ => rfl,fun h => absurd rfl h⟩
  · rw [heq] at hcall
    obtain ⟨rfl,rfl⟩ := Prod.mk.inj hcall
    have hret : u32 (offT cur.heapEnd) = cur.heapEnd := by
      unfold u32 offT
      rw [Int.bmod_def]
      split <;> omega
    have hne : offT cur.heapEnd ≠ -1 := fun h => by
      rw [h] at hret
      have : u32 (-1) = 0xffffffff := rfl
      omega
    exact ⟨iff_of_false hne hok,fun h => absurd h hne,fun _ => ⟨hret,hnew⟩⟩

theorem sbrk_keeps_bounds_most_negative :
    IsInt32 (-2 ^ 31) ∧ (sysSbrk (-2 ^ 31) (sbrks [8192, -4096] zeroSpace)).1 = -1 ∧
      (sbrks [8192, -4096] zeroSpace).heapEnd = 4096 ∧
      (SbrkRefused (-2 ^ 31) (sbrks [8192, -4096] zeroSpace)) := by
  have hmin : IsInt32 (-2 ^ 31) := ⟨by decide,by decide⟩
  have hret : (sysSbrk (-2 ^ 31) (sbrks [8192,-4096] zeroSpace)).1 = -1 := by decide
  refine ⟨hmin,hret,by decide,?_⟩
  obtain ⟨-,-,-,-,hiff,-⟩ := @sbrk_keeps_bounds zeroSpace rfl (by decide) [8192,-4096]
    (by simp [IsInt32]) _ hmin _ _ _ rfl rfl
  exact hiff.mp hret

def tlbLookup (tlb : Nat → TlbEntry) (va : Nat) : Option Nat :=
  ((List.range numTlb).find? fun i => (tlb i).valid && (tlb i).vpage = va / 4096).map
    fun i => pageFrame (tlb i).lo

namespace Paged

def readByte (m : Paged) (as : Nat) (sp : AddrSpace) (va : Nat) : Option UInt8 :=
  match tlbLookup m.vm.tlb va with
  | some paddr => some (m.ram (paddr + va % 4096))
  | none =>
    match m.fault as sp (pageFrame va) with
    | (.failed _, _) => none
    | (.mapped paddr, m) => some (m.ram (paddr + va % 4096))

def setSpace (m : Paged) (as : Nat) (sp : AddrSpace) : Paged := { m with vm := m.vm.setSpace as sp }

def sbrk (m : Paged) (as : Nat) (size : Int) : Option (Int × Paged) :=
  (m.vm.spaces as).map fun sp => ((sysSbrk size sp).1, m.setSpace as (sysSbrk size sp).2)

@[simp] theorem spaces_setSpace (m : Paged) (as : Nat) (sp : AddrSpace) :
    (m.setSpace as sp).vm.spaces as = some sp := by
  simp [setSpace,Vm.setSpace]

theorem sbrk_of_space {m : Paged} {as : Nat} {sp : AddrSpace} (hsp : m.vm.spaces as = some sp)
    (size : Int) :
    m.sbrk as size = some ((sysSbrk size sp).1, m.setSpace as (sysSbrk size sp).2) := by
  unfold sbrk
  rw [hsp,Option.map_some]

end Paged

def GivenUp (sp sp' : AddrSpace) (va : Nat) : Prop :=
  va % 4096 = 0 ∧ sp'.heapEnd ≤ va ∧ va + 4096 ≤ sp.heapEnd

structure Revoked (m m' : Paged) (as : Nat) (sp sp' : AddrSpace) : Prop where
  unmapped : ∀ va, GivenUp sp sp' va → pageEntryOf m'.vm sp' va = none
  flushed : ∀ va, GivenUp sp sp' va → tlbLookup m'.vm.tlb va = none
  freed : ∀ va pe i, GivenUp sp sp' va → pageEntryOf m.vm sp va = some pe → pe.coremapPtr = some i →
    (m'.vm.coremap.entries i).allocated = 0
  zero : ∀ va off sizes b, GivenUp sp sp' va → off < 4096 → va + off < (sbrks sizes sp').heapEnd →
    (m'.setSpace as (sbrks sizes sp')).readByte as (sbrks sizes sp') (va + off) = some b → b = 0

section
variable {m m' : Paged} {as va : Nat} {sp sp' : AddrSpace} {size ret : Int}

theorem lvone_sbrks (sizes : List Int) (sp : AddrSpace) : (sbrks sizes sp).lvone = sp.lvone := by
  induction sizes generalizing sp with
  | nil => rfl
  | cons size sizes ih => exact (ih _).trans (lvone_sysSbrk size sp)

theorem pageEntryOf_congr {vm vm' : Vm} (htables : vm'.tables = vm.tables)
    (hlv : sp'.lvone = sp.lvone) (fa : Nat) : pageEntryOf vm' sp' fa = pageEntryOf vm sp fa := by
  unfold pageEntryOf
  rw [htables,hlv]

theorem Paged.readByte_fresh {off : Nat} {b : UInt8} (ha : va % 4096 = 0) (hoff : off < 4096)
    (htlb : tlbLookup m.vm.tlb va = none) (hpage : pageEntryOf m.vm sp va = none)
    (hread : m.readByte as sp (va + off) = some b) : b = 0 := by
  have hframe : pageFrame (va + off) = va := by
    unfold pageFrame
    omega
  have hlook : tlbLookup m.vm.tlb (va + off) = none := by
    unfold tlbLookup at htlb ⊢
    rwa [show (va + off) / 4096 = va / 4096 by omega]
  have hmod : (va + off) % 4096 = off := by omega
  unfold readByte at hread
  rw [hlook,hframe,hmod] at hread
  unfold fault at hread
  rw [hpage] at hread
  dsimp only at hread
  split at hread
  · cases hread
  · rename_i paddr m₁ hfault
    split at hfault
    · cases hfault
    · cases hfault
      rw [← Option.some_inj.mp hread]
      exact if_pos ⟨Nat.le_add_right _ _,Nat.add_lt_add_left hoff _⟩

theorem sbrk_revokes_iff (hsp : m.vm.spaces as = some sp) (hsp' : m'.vm.spaces as = some sp')
    (hcall : m.sbrk as size = some (ret, m')) : Revoked m m' as sp sp' ↔
      ∀ va, GivenUp sp sp' va → pageEntryOf m.vm sp va = none ∧ tlbLookup m.vm.tlb va = none := by
  rw [Paged.sbrk_of_space hsp,Option.some_inj] at hcall
  obtain ⟨-,rfl⟩ := Prod.mk.inj hcall
  have hnew : sp' = (sysSbrk size sp).2 := by simpa using hsp'.symm
  have hlv : sp'.lvone = sp.lvone := hnew ▸ lvone_sysSbrk size sp
  have hsame : ∀ va, pageEntryOf (m.setSpace as (sysSbrk size sp).2).vm sp' va =
      pageEntryOf m.vm sp va := pageEntryOf_congr rfl hlv
  constructor
  · exact fun h va hup => ⟨hsame va ▸ h.unmapped va hup,h.flushed va hup⟩
  · intro h
    refine ⟨fun va hup => (hsame va).trans (h va hup).1,fun va hup => (h va hup).2,
      fun va pe i hup hpe => ?_,fun va off sizes b hup hoff _ hread => ?_⟩
    · rw [(h va hup).1] at hpe
      cases hpe
    · have htlb : tlbLookup ((m.setSpace as (sysSbrk size sp).2).setSpace as
          (sbrks sizes sp')).vm.tlb va = none := (h va hup).2
      refine Paged.readByte_fresh hup.1 hoff htlb ?_ hread
      exact (pageEntryOf_congr rfl ((lvone_sbrks sizes sp').trans hlv) va).trans (h va hup).1

end

def heapRun (fa : Nat) : Option Sys :=
  Run.exec vmStep (Sys.boot smallRam zeroRam tlbInvalid)
    [.asCreate zeroSpace, .asDefineRegion 0x80011000 0x400000 0x1000 0, .sysSbrk 0x80011000 8192,
      .vmFault (some 0x80011000) .write fa 0]

theorem sbrk_revokes_untouched : ∃ s sp sp' m', heapRun 0x401000 = some s ∧
    s.vm.spaces 0x80011000 = some sp ∧ m'.vm.spaces 0x80011000 = some sp' ∧
    Paged.sbrk ⟨s.vm, fun _ => 0⟩ 0x80011000 (-4096) = some (0x403000, m') ∧
    GivenUp sp sp' 0x402000 ∧ Revoked ⟨s.vm, fun _ => 0⟩ m' 0x80011000 sp sp' := by
  have hview : (heapRun 0x401000).bind (fun s => (s.vm.spaces 0x80011000).map fun sp =>
      (sp.heapEnd, (sysSbrk (-4096) sp).1, (sysSbrk (-4096) sp).2.heapEnd,
        pageEntryOf s.vm sp 0x402000, tlbLookup s.vm.tlb 0x402000)) =
      some (0x403000, 0x403000, 0x402000, none, none) := by decide +kernel
  obtain ⟨s,hs,hmap⟩ := Option.bind_eq_some_iff.mp hview
  obtain ⟨sp,hsp,heq⟩ := Option.map_eq_some_iff.mp hmap
  simp only [Prod.mk.injEq] at heq
  obtain ⟨hend,hret,hend',hpage,htlb⟩ := heq
  have hcall := @Paged.sbrk_of_space ⟨s.vm,fun _ => 0⟩ 0x80011000 sp hsp (-4096)
  rw [hret] at hcall
  refine ⟨s,sp,(sysSbrk (-4096) sp).2,_,hs,hsp,Paged.spaces_setSpace _ _ _,hcall,
    ⟨rfl,Nat.le_of_eq hend',Nat.le_of_eq hend.symm⟩,
    (sbrk_revokes_iff hsp (Paged.spaces_setSpace _ _ _) hcall).mpr ?_⟩
  rintro va ⟨-,hlo,hhi⟩
  rw [hend'] at hlo
  rw [hend] at hhi
  obtain rfl : va = 0x402000 := by omega
  exact ⟨hpage,htlb⟩

theorem sbrk_keeps_given_up_page : ∃ s sp sp' m', heapRun 0x402000 = some s ∧
    s.vm.spaces 0x80011000 = some sp ∧ m'.vm.spaces 0x80011000 = some sp' ∧
    Paged.sbrk ⟨s.vm, fun _ => 0x55⟩ 0x80011000 (-8192) = some (0x403000, m') ∧
    (Paged.setSpace m' 0x80011000 (sbrks [8192] sp')).readByte 0x80011000 (sbrks [8192] sp')
      0x402000 = some 0x55 ∧
    ¬ Revoked ⟨s.vm, fun _ => 0x55⟩ m' 0x80011000 sp sp' := by
  have hview : (heapRun 0x402000).bind (fun s => (s.vm.spaces 0x80011000).map fun sp =>
      (sp.heapEnd, (sysSbrk (-8192) sp).1, (sysSbrk (-8192) sp).2.heapEnd,
        (pageEntryOf s.vm sp 0x402000).isSome,
        (Paged.setSpace (Paged.setSpace ⟨s.vm,fun _ => 0x55⟩ 0x80011000 (sysSbrk (-8192) sp).2)
          0x80011000 (sbrks [8192] (sysSbrk (-8192) sp).2)).readByte 0x80011000
            (sbrks [8192] (sysSbrk (-8192) sp).2) 0x402000)) =
      some (0x403000, 0x403000, 0x401000, true, some 0x55) := by decide +kernel
  obtain ⟨s,hs,hmap⟩ := Option.bind_eq_some_iff.mp hview
  obtain ⟨sp,hsp,heq⟩ := Option.map_eq_some_iff.mp hmap
  simp only [Prod.mk.injEq] at heq
  obtain ⟨hend,hret,hend',hpage,hread⟩ := heq
  have hcall := @Paged.sbrk_of_space ⟨s.vm,fun _ => 0x55⟩ 0x80011000 sp hsp (-8192)
  rw [hret] at hcall
  refine ⟨s,sp,(sysSbrk (-8192) sp).2,_,hs,hsp,Paged.spaces_setSpace _ _ _,hcall,hread,
    fun hrev => ?_⟩
  have hnone := hrev.unmapped 0x402000 ⟨rfl,by rw [hend']; decide,by rw [hend]⟩
  have hsame : pageEntryOf s.vm sp 0x402000 = none :=
    (pageEntryOf_congr rfl (lvone_sysSbrk (-8192) sp) 0x402000).symm.trans hnone
  rw [hsame] at hpage
  cases hpage

end OS161
