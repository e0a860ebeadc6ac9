import OS161.Vm.Coremap

namespace OS161

def userstack : Nat := mipsKseg0

def usertop : Nat := mipsKseg0

def stackSize : Nat := 0x500000

def heapSize : Nat := 0x500000

def mallocLimit : Int := 131072

def level1Size : Nat := 512

def level2Size : Nat := 1024

structure PageEntry where
  coremapPtr : Option Nat
  pageAddress : Nat
  valid : Bool
  deriving DecidableEq, Repr

abbrev Lv2pt := Nat → PageEntry

structure AddrSpace where
  v : Option Nat
  eoStack : Int
  heapStart : Nat
  heapEnd : Nat
  npages2 : Nat
  npages1 : Nat
  vbase1 : Nat
  vbase2 : Nat
  lvone : Nat → Option Nat

def sizeofAddrspace : Nat := 2080

def sizeofLv2pt : Nat := 8192

structure TlbEntry where
  hi : Nat
  lo : Nat
  deriving DecidableEq, Repr

def tlbloDirty : Nat := 0x400

def tlbloValid : Nat := 0x200

def numTlb : Nat := 64

def tlbInvalid (i : Nat) : TlbEntry := ⟨(0x80000 + i) * 4096, 0⟩

structure Vm where
  phys : Phys
  spaces : Nat → Option AddrSpace
  tables : Nat → Lv2pt
  tlb : Nat → TlbEntry

namespace Vm

abbrev coremap (vm : Vm) : Coremap := vm.phys.coremap

def setSpace (vm : Vm) (as : Nat) (sp : AddrSpace) : Vm :=
  { vm with spaces := Function.update vm.spaces as (some sp) }

def setPage (vm : Vm) (table index : Nat) (pe : PageEntry) : Vm :=
  { vm with
    tables := Function.update vm.tables table (Function.update (vm.tables table) index pe) }

def setCoremap (vm : Vm) (c : Coremap) : Vm :=
  { vm with phys := { vm.phys with coremap := c } }

def setEntry (vm : Vm) (i : Nat) (e : CoremapEntry) : Vm :=
  vm.setCoremap (vm.coremap.setEntry i e)

end Vm

def l1Index (fa : Nat) : Nat := fa / 2 ^ 22

def l2Index (fa : Nat) : Nat := fa / 2 ^ 12 % 1024

def lv2Empty : Lv2pt := fun _ => ⟨none, 0, false⟩

def asCreate (junk : AddrSpace) (vm : Vm) : Option Nat × Vm :=
  let (as, phys) := kmallocPages sizeofAddrspace vm.phys
  if as = 0 then (none, { vm with phys := phys })
  else
    (some as, { vm with
      phys := phys
      spaces := Function.update vm.spaces as (some { junk with
        vbase1 := 0, npages1 := 0, vbase2 := 0, npages2 := 0, heapStart := 0
        v := none, eoStack := 0 }) })

def asDefineRegion (sp : AddrSpace) (vaddr sz counter : Nat) : Option Errno × AddrSpace :=
  let sz := u32 (sz + vaddr % 4096)
  let vaddr := pageFrame vaddr
  let sz := pageFrame (u32 (sz + 4095))
  let npages := sz / 4096
  let top := u32 (vaddr + sz)
  let bumped (sp : AddrSpace) : AddrSpace :=
    if sp.heapStart < top then { sp with heapStart := top, heapEnd := top } else sp
  if counter = 0 ∧ sp.vbase1 = 0 then
    (none, bumped { sp with vbase1 := vaddr, npages1 := npages })
  else if counter = 1 ∧ sp.vbase2 = 0 then
    (none, bumped { sp with vbase2 := vaddr, npages2 := npages })
  else (some .eunimp, sp)

def asDefineStack (sp : AddrSpace) : AddrSpace := { sp with eoStack := offT userstack }

def sysSbrk (size : Int) (sp : AddrSpace) : Int × AddrSpace :=
  if mallocLimit ≤ size then (-1, sp)
  else
    let newheap := u32 (sp.heapEnd + size)
    if heapSize < u32 (newheap - sp.heapStart) then (-1, sp)
    else (offT sp.heapEnd, { sp with heapEnd := newheap })

def linkTable (vm : Vm) (as : Nat) (sp : AddrSpace) (l1 table : Nat) : Vm :=
  ({ vm with tables := Function.update vm.tables table lv2Empty }).setSpace as
    { sp with lvone := Function.update sp.lvone l1 (some table) }

def lv2Table (vm : Vm) (as : Nat) (sp : AddrSpace) (l1 : Nat) : Option (Nat × Vm) :=
  match sp.lvone l1 with
  | some table => some (table, vm)
  | none =>
    let (table, phys) := kmallocPages sizeofLv2pt vm.phys
    if table = 0 then none
    else some (table, linkTable { vm with phys := phys } as sp l1 table)

inductive IncRet where
  | failed (code : Int)
  | mapped (paddr : Nat)
  deriving DecidableEq, Repr

def linkPage (vm : Vm) (as table l2 i : Nat) : Vm :=
  let paddr := vm.coremap.frameAddr i
  (vm.setPage table l2 ⟨some i, paddr % 2 ^ 20, true⟩).setEntry i
    { vm.coremap.entries i with continuous := 1, as := some as, pe := some (table, l2) }

def incPage (vm : Vm) (as : Nat) (sp : AddrSpace) (fa : Nat) : IncRet × Vm :=
  match allocatePhysicalPage vm.phys with
  | none => (.failed (-1), vm)
  | some (i, phys) =>
    let vm := { vm with phys := phys }
    match lv2Table vm as sp (l1Index fa) with
    | none => (.failed 4, vm)
    | some (table, vm) =>
      let vm := linkPage vm as table (l2Index fa) i
      (.mapped (vm.coremap.frameAddr i), vm)

def shrinkStack (vm : Vm) (as : Nat) : Vm :=
  match vm.spaces as with
  | none => vm
  | some sp => vm.setSpace as { sp with eoStack := offT (sp.eoStack - 4096) }

def incStack (vm : Vm) (as : Nat) (sp : AddrSpace) (fa : Nat) : IncRet × Vm :=
  match incPage vm as sp fa with
  | (.failed code, vm) => (.failed code, vm)
  | (.mapped paddr, vm) => (.mapped paddr, shrinkStack vm as)

def incHeap (vm : Vm) (as : Nat) (sp : AddrSpace) (fa : Nat) : IncRet × Vm :=
  incPage vm as sp fa

def tlbFree (tlb : Nat → TlbEntry) : Option Nat :=
  (List.range numTlb).find? fun i => (tlb i).lo &&& tlbloValid = 0

def tlbInstall (tlb : Nat → TlbEntry) (random : Nat) (e : TlbEntry) :
    Option (Nat × (Nat → TlbEntry)) :=
  match tlbFree tlb with
  | some i => some (i, Function.update tlb i e)
  | none =>
    let number := random % numTlb
    let tlb := Function.update tlb number (tlbInvalid number)
    match tlbFree tlb with
    | some i => some (i, Function.update tlb i e)
    | none => none

inductive FaultType where
  | read
  | write
  | readonly
  deriving DecidableEq, Repr

inductive Position where
  | stack
  | heap
  | nowhere
  deriving DecidableEq, Repr

def stackSpent (sp : AddrSpace) : Bool := stackSize ≤ u32 (userstack - sp.eoStack)

def position (sp : AddrSpace) (fa : Nat) : Position :=
  let pos := if stackSpent sp then .stack else .nowhere
  let pos := if fa ≤ userstack ∧ u32 (sp.eoStack - 4096) ≤ fa then .stack else pos
  if sp.heapStart ≤ fa ∧ fa ≤ sp.heapEnd then .heap else pos

def pageEntryOf (vm : Vm) (sp : AddrSpace) (fa : Nat) : Option PageEntry :=
  match sp.lvone (l1Index fa) with
  | none => none
  | some table =>
    let pe := vm.tables table (l2Index fa)
    if pe.valid then some pe else none

def faultPaddr (vm : Vm) (as : Nat) (sp : AddrSpace) (fa : Nat) : IncRet × Vm :=
  match pageEntryOf vm sp fa with
  | some pe => (.mapped pe.pageAddress, vm)
  | none =>
    match position sp fa with
    | .stack => incStack vm as sp fa
    | .heap => incHeap vm as sp fa
    | .nowhere => (.failed 1, vm)

def installPage (fa random : Nat) : IncRet × Vm → Kern (Option Errno × Vm)
  | (.failed _, vm) => .ok (some .efault, vm)
  | (.mapped paddr, vm) => do
    assert (pageFrame paddr = paddr) "(paddr & PAGE_FRAME)==paddr"
    match tlbInstall vm.tlb random ⟨fa, paddr ||| tlbloDirty ||| tlbloValid⟩ with
    | some (_, tlb) => .ok (none, { vm with tlb := tlb })
    | none => .ok (some .efault, vm)

def vmFault (vm : Vm) (as : Option Nat) (faulttype : FaultType) (faultaddress random : Nat) :
    Kern (Option Errno × Vm) :=
  let fa := pageFrame faultaddress
  match faulttype with
  | .readonly => .error (.panic "dumbvm: got VM_FAULT_READONLY")
  | .read | .write =>
    match as with
    | none => .ok (some .efault, vm)
    | some as =>
      match vm.spaces as with
      | none => .ok (some .efault, vm)
      | some sp => installPage fa random (faultPaddr vm as sp fa)

def freeUserPage (c : Coremap) (pe : PageEntry) : Coremap :=
  match pe.coremapPtr with
  | none => c
  | some i => c.setEntry i ⟨0, 0, none, none⟩

def freeUserTable (c : Coremap) (table : Lv2pt) : Coremap :=
  (List.range level2Size).foldl (fun c j => freeUserPage c (table j)) c

def wipeTable (table : Lv2pt) : Lv2pt := fun j =>
  if j < level2Size ∧ (table j).coremapPtr ≠ none then ⟨none, 0, false⟩ else table j

def destroyTable (vm : Vm) (table : Nat) : Vm :=
  { vm with
    phys := { vm.phys with coremap := freeUserTable vm.phys.coremap (vm.tables table) }
    tables := Function.update vm.tables table (wipeTable (vm.tables table)) }

def destroyAt (sp : AddrSpace) (vm : Vm) (l1 : Nat) : Vm :=
  match sp.lvone l1 with
  | none => vm
  | some table => destroyTable vm table

def destroyTables (vm : Vm) (sp : AddrSpace) : Vm :=
  (List.range level1Size).foldl (destroyAt sp) vm

def asDestroy (vm : Vm) (as : Nat) (sp : AddrSpace) : Vm :=
  let vm := destroyTables vm sp
  { vm with
    phys := freeKpages as vm.phys
    spaces := Function.update vm.spaces as none }

def asActivate (vm : Vm) : Vm :=
  { vm with tlb := fun i => if i < numTlb then tlbInvalid i else vm.tlb i }

theorem tlbFree_lt {tlb : Nat → TlbEntry} {i : Nat} (h : tlbFree tlb = some i) : i < numTlb :=
  List.mem_range.mp (List.mem_of_find?_eq_some h)

theorem tlbInstall_eq (tlb : Nat → TlbEntry) (random : Nat) :
    ∃ i tlb', i < numTlb ∧ ∀ e, tlbInstall tlb random e = some (i, Function.update tlb' i e) := by
  unfold tlbInstall
  cases hf : tlbFree tlb with
  | some i => exact ⟨i,tlb,tlbFree_lt hf,fun _ => rfl⟩
  | none =>
    have hlt : random % numTlb < numTlb := Nat.mod_lt _ (by decide)
    cases hf' : tlbFree (Function.update tlb (random % numTlb) (tlbInvalid (random % numTlb))) with
    | some i => exact ⟨i,_,tlbFree_lt hf',fun e => by simp only [hf']; rfl⟩
    | none =>
      have := List.find?_eq_none.mp hf' (random % numTlb) (List.mem_range.mpr hlt)
      simp [tlbInvalid] at this

theorem installPage_failed (fa random : Nat) (code : Int) (vm : Vm) :
    installPage fa random (.failed code, vm) = .ok (some .efault, vm) := rfl

theorem installPage_mapped {fa random paddr : Nat} (vm : Vm) (ha : pageFrame paddr = paddr) :
    ∃ i tlb, tlbInstall vm.tlb random ⟨fa, paddr ||| tlbloDirty ||| tlbloValid⟩ = some (i, tlb) ∧
      installPage fa random (.mapped paddr, vm) = .ok (none, { vm with tlb := tlb }) := by
  obtain ⟨i,tlb,-,hinst⟩ := tlbInstall_eq vm.tlb random
  refine ⟨i,_,hinst _,?_⟩
  simp only [installPage,ha,decide_true,assert_true,hinst,bind,Except.bind]

theorem installPage_misaligned {fa random paddr : Nat} (vm : Vm) (ha : pageFrame paddr ≠ paddr) :
    installPage fa random (.mapped paddr, vm) =
      .error (.panic "(paddr & PAGE_FRAME)==paddr") := by
  simp [installPage,ha,bind,Except.bind]

theorem vmFault_eq {vm : Vm} {as : Nat} {sp : AddrSpace} {faulttype : FaultType}
    (hsp : vm.spaces as = some sp) (hft : faulttype ≠ .readonly) (fa random : Nat) :
    vmFault vm (some as) faulttype fa random =
      installPage (pageFrame fa) random (faultPaddr vm as sp (pageFrame fa)) := by
  cases faulttype with
  | readonly => exact absurd rfl hft
  | read | write => simp only [vmFault,hsp]

end OS161
