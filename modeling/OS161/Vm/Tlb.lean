import OS161.Vm.Copy

namespace OS161

open Function

def TlbEntry.valid (e : TlbEntry) : Bool := e.lo &&& tlbloValid ≠ 0

def TlbEntry.vpage (e : TlbEntry) : Nat := e.hi / 4096

-- The hardware raises a fault for a page only when no entry has it in its virtual page field.
def tlbMiss (tlb : Nat → TlbEntry) (fa : Nat) : Bool :=
  (List.range numTlb).all fun i => (tlb i).vpage ≠ fa / 4096

namespace Tlb

inductive Phase where
  | unborn
  -- created by thread_fork to run md_forkentry with this address space
  | forked (as : Nat)
  | kernel
  -- t_vmspace has been stored, as_activate has not been called yet
  | assigned
  -- t_vmspace is NULL: its address space was destroyed, or as_create failed
  | torn
  | user
  deriving DecidableEq, Repr

structure Machine where
  sys : Sys
  cur : Nat
  vmspace : Nat → Option Nat
  phase : Nat → Phase

inductive Act where
  | trap
  | usermode
  | fault (faulttype : FaultType) (faultaddress random : Nat)
  | activate
  | create (junk : AddrSpace)
  | fork (junk : AddrSpace) (child : Option Nat)
  | forkentry
  | destroy
  | spawn (t : Nat)
  | switch (t : Nat)
  | work (op : VmOp)

namespace Machine

def boot (ram : Ram) (entries : Nat → CoremapEntry) (tlb : Nat → TlbEntry) (tables : Nat → Lv2pt) :
    Machine where
  sys := { Sys.boot ram entries tlb with vm := { (Sys.boot ram entries tlb).vm with tables := tables } }
  cur := 0
  vmspace := fun _ => none
  phase := fun t => if t = 0 then .kernel else .unborn

def goto (m : Machine) (p : Phase) : Machine := { m with phase := Function.update m.phase m.cur p }

def assign (m : Machine) (as : Option Nat) : Machine :=
  { m with vmspace := Function.update m.vmspace m.cur as }

def flush (m : Machine) : Machine := { m with sys := { m.sys with vm := asActivate m.sys.vm } }

-- Kernel work that does not change t_vmspace: kmalloc of pages, never of none, and shaping the own
-- address space.
def mayWork (m : Machine) : VmOp → Bool
  | .allocKpages npages => u32 npages ≠ 0
  | .freeKpages _ => true
  | .asDefineRegion a _ _ _ | .asDefineStack a | .sysSbrk a _ => m.vmspace m.cur = some a
  | _ => false

def fork (m : Machine) (junk : AddrSpace) (child : Option Nat) : Option Machine := do
  let a ← m.vmspace m.cur
  let old ← m.sys.vm.spaces a
  match asCopy junk m.sys.vm old, child with
  | (none, vm), _ => some { m with sys := { m.sys with vm := vm } }
  | (some new, vm), none =>
    some { m with sys := ⟨vm, Function.update m.sys.live new (some .space)⟩ }
  | (some new, vm), some c =>
    if m.phase c = .unborn then
      some { m with
        sys := ⟨vm, Function.update m.sys.live new (some .space)⟩
        phase := Function.update m.phase c (.forked new) }
    else none

def create (m : Machine) (junk : AddrSpace) : Machine :=
  match asCreate junk m.sys.vm with
  | (none, vm) => (({ m with sys := { m.sys with vm := vm } } : Machine).assign none).goto .torn
  | (some a, vm) =>
    (({ m with sys := ⟨vm, Function.update m.sys.live a (some .space)⟩ } : Machine).assign
      (some a)).goto .assigned

def step (m : Machine) : Act → Option Machine
  | .trap => if m.phase m.cur = .user then some (m.goto .kernel) else none
  | .usermode =>
    if m.phase m.cur = .kernel ∧ m.vmspace m.cur ≠ none then some (m.goto .user) else none
  | .fault ft fa random =>
    if (m.phase m.cur = .user ∨ m.phase m.cur = .kernel) ∧ tlbMiss m.sys.vm.tlb fa then
      (m.sys.fault (m.vmspace m.cur) ft fa random).map fun sys => { m with sys := sys }
    else none
  | .activate =>
    if m.phase m.cur = .kernel ∨ m.phase m.cur = .assigned then some (m.flush.goto .kernel) else none
  | .create junk =>
    if m.phase m.cur = .kernel ∨ m.phase m.cur = .torn then some (m.create junk) else none
  | .fork junk child => if m.phase m.cur = .kernel then m.fork junk child else none
  | .forkentry =>
    match m.phase m.cur with
    | .forked a => some ((m.assign (some a)).goto .assigned)
    | _ => none
  | .destroy =>
    if m.phase m.cur = .kernel then do
      let a ← m.vmspace m.cur
      let sys ← vmStep m.sys (.asDestroy a)
      some ((({ m with sys := sys } : Machine).assign none).goto .torn)
    else none
  | .spawn t =>
    if m.phase m.cur = .kernel ∧ m.phase t = .unborn then
      some { m with phase := Function.update m.phase t .kernel }
    else none
  | .switch t =>
    if m.phase m.cur ≠ .user ∧ m.phase t ≠ .unborn then
      let m' := { m with cur := t }
      some (if m.vmspace t ≠ none then m'.flush else m')
    else none
  | .work op =>
    if m.phase m.cur ≠ .user ∧ m.mayWork op then
      (vmStep m.sys op).map fun sys => { m with sys := sys }
    else none

end Machine

def Act.zeroed : Act → Prop
  | .create junk | .fork junk _ => ∀ l1, junk.lvone l1 = none
  | _ => True

section
variable {tlb : Nat → TlbEntry} {vm : Vm} {a fa : Nat}

theorem tlbInstall_one (tlb : Nat → TlbEntry) (random : Nat) (e : TlbEntry) :
    ∃ i < numTlb, tlbInstall tlb random e = some (i, Function.update tlb i e) := by
  unfold tlbInstall
  cases hf : tlbFree tlb with
  | some i => exact ⟨i,tlbFree_lt hf,rfl⟩
  | none =>
    have hlt : random % numTlb < numTlb := Nat.mod_lt _ (by decide)
    cases hf' : tlbFree (update tlb (random % numTlb) (tlbInvalid (random % numTlb))) with
    | none =>
      have := List.find?_eq_none.mp hf' (random % numTlb) (List.mem_range.mpr hlt)
      simp [tlbInvalid] at this
    | some i =>
      have hfull := List.find?_eq_none.mp hf i (List.mem_range.mpr (tlbFree_lt hf'))
      have hfree := List.find?_some hf'
      have hi : i = random % numTlb := by
        by_contra hne
        rw [update_of_ne hne] at hfree
        exact hfull hfree
      refine ⟨i,tlbFree_lt hf',?_⟩
      simp only [hf']
      rw [hi,update_idem]

structure Agrees (vm : Vm) (a : Nat) : Prop where
  entry : ∀ i < numTlb, vm.tlb i = tlbInvalid i ∨ (vm.tlb i).vpage < usertop / 4096 ∧
    (vm.pageAt a (l1Index (vm.tlb i).hi) (l2Index (vm.tlb i).hi)).valid = true
  distinct : ∀ i < numTlb, ∀ j < numTlb, (vm.tlb i).vpage = (vm.tlb j).vpage → i = j

theorem tlbInvalid_vpage (i : Nat) : (tlbInvalid i).vpage = usertop / 4096 + i := by
  unfold TlbEntry.vpage tlbInvalid usertop mipsKseg0
  dsimp only
  omega

theorem Agrees.flushed (vm : Vm) (a : Nat) : Agrees (asActivate vm) a where
  entry i hi := .inl (if_pos hi)
  distinct i hi j hj h := by
    have hentry : ∀ {i}, i < numTlb → (asActivate vm).tlb i = tlbInvalid i := fun hi => if_pos hi
    rw [hentry hi,hentry hj,tlbInvalid_vpage,tlbInvalid_vpage] at h
    omega

theorem Agrees.mono (h : Agrees vm a) {vm' : Vm} (htlb : vm'.tlb = vm.tlb)
    (hvalid : ∀ {l j}, (vm.pageAt a l j).valid = true → (vm'.pageAt a l j).valid = true) :
    Agrees vm' a where
  entry i hi := by
    rw [htlb]
    exact (h.entry i hi).imp id fun he => ⟨he.1,hvalid he.2⟩
  distinct := by
    rw [htlb]
    exact h.distinct

theorem Agrees.install (h : Agrees vm a) (hfa : fa < usertop) (hmiss : tlbMiss vm.tlb fa)
    (hvalid : (vm.pageAt a (l1Index (pageFrame fa)) (l2Index (pageFrame fa))).valid = true)
    {i : Nat} {e : TlbEntry} (he : e.hi = pageFrame fa) :
    Agrees { vm with tlb := Function.update vm.tlb i e } a := by
  have hpage : e.vpage = fa / 4096 := by
    unfold TlbEntry.vpage
    rw [he,pageFrame]
    omega
  have hne : ∀ k < numTlb, (vm.tlb k).vpage ≠ e.vpage := fun k hk => by
    rw [hpage]
    simpa [tlbMiss] using List.all_eq_true.mp hmiss k (List.mem_range.mpr hk)
  refine ⟨fun k hk => ?_,fun k hk j hj hkj => ?_⟩
  · rcases eq_or_ne k i with rfl | hki
    · right
      simp only [update_self,hpage,he]
      refine ⟨?_,hvalid⟩
      unfold usertop mipsKseg0 at hfa ⊢
      omega
    · simp only [update_of_ne hki]
      exact h.entry k hk
  · rcases eq_or_ne k i with rfl | hki <;> rcases eq_or_ne j k with rfl | hjk
    · rfl
    · simp only [update_self,update_of_ne hjk] at hkj
      exact absurd hkj.symm (hne j hj)
    · rfl
    · rcases eq_or_ne j i with rfl | hji
      · simp only [update_self,update_of_ne hki] at hkj
        exact absurd hkj (hne k hk)
      · simp only [update_of_ne hki,update_of_ne hji] at hkj
        exact h.distinct k hk j hj hkj

theorem installPage_one {random paddr : Nat} (vm : Vm) (fa : Nat) (ha : pageFrame paddr = paddr) :
    ∃ i < numTlb, installPage fa random (.mapped paddr, vm) = .ok (none, { vm with
      tlb := Function.update vm.tlb i ⟨fa, paddr ||| tlbloDirty ||| tlbloValid⟩ }) := by
  obtain ⟨i,hi,hinst⟩ := tlbInstall_one vm.tlb random ⟨fa,paddr ||| tlbloDirty ||| tlbloValid⟩
  refine ⟨i,hi,?_⟩
  simp only [installPage,ha,decide_true,assert_true,hinst,bind,Except.bind]

end

section
variable {s s' : Sys} {own : Nat → Option Owner} {a fa random : Nat} {ft : FaultType}

theorem Agrees.installed {vm : Vm} (h : Agrees vm a) (hfa : fa < usertop) (hmiss : tlbMiss vm.tlb fa)
    {ret : IncRet} {e : Option Errno} {vm' : Vm}
    (hvalid : ∀ paddr, ret = .mapped paddr →
      (vm.pageAt a (l1Index (pageFrame fa)) (l2Index (pageFrame fa))).valid = true)
    (hins : installPage (pageFrame fa) random (ret, vm) = .ok (e, vm')) : Agrees vm' a := by
  cases ret with
  | failed code =>
    cases hins
    exact h
  | mapped paddr =>
    by_cases ha : pageFrame paddr = paddr
    · obtain ⟨i,-,hok⟩ := @installPage_one random paddr vm (pageFrame fa) ha
      rw [hok] at hins
      cases hins
      exact h.install hfa hmiss (hvalid paddr rfl) rfl
    · rw [installPage_misaligned vm ha] at hins
      cases hins

theorem fault_agrees (hh : Held s own) (h : Agrees s.vm a) (hmiss : tlbMiss s.vm.tlb fa)
    (hstep : s.fault (some a) ft fa random = some s') :
    Agrees s'.vm a ∧ ∀ {a'}, s.vm.spaces a' ≠ none → s'.vm.spaces a' ≠ none := by
  obtain ⟨sp,e,vm',hfa,-,hsp,hins,rfl⟩ := fault_some hstep
  rcases faultPaddr_took hh.ledger.sane (hh.placed a) hsp (l1Index_lt hfa) with
    ⟨-,ret,hp,hret⟩ | ⟨-,i,ret,vm₁,hp,htook⟩
  · rw [hp] at hins
    obtain ⟨tlb,htlb⟩ := installPage_vm hins
    refine ⟨h.installed hfa hmiss (fun paddr hm => (hret paddr hm).1) hins,fun {a'} ha' => ?_⟩
    rw [htlb]
    exact ha'
  · rw [hp] at hins
    obtain ⟨tlb,htlb⟩ := installPage_vm hins
    have h₁ : Agrees vm₁ a := h.mono htook.grows.tlb htook.grows.valid
    refine ⟨h₁.installed hfa (htook.grows.tlb ▸ hmiss) (fun paddr hm => ?_) hins,fun {a'} ha' => ?_⟩
    · rcases htook.outcome with ⟨hf,-⟩ | ⟨-,hpage⟩
      · exact nomatch hf.symm.trans hm
      · rw [hpage]
    · rw [htlb]
      rcases eq_or_ne a' a with rfl | hne
      · exact htook.grows.alive
      · exact (htook.grows.others hne).symm ▸ ha'

theorem faultPaddr_tlb (hh : Held s own) {sp : AddrSpace} (hsp : s.vm.spaces a = some sp)
    (hl1 : l1Index fa < level1Size) {ret : IncRet} {vm' : Vm}
    (hp : faultPaddr s.vm a sp fa = (ret, vm')) : vm'.tlb = s.vm.tlb := by
  rcases faultPaddr_took hh.ledger.sane (hh.placed a) hsp hl1 with
    ⟨-,ret',hp',-⟩ | ⟨-,i,ret',vm₁,hp',htook⟩
  · rw [← (Prod.mk.inj (hp'.symm.trans hp)).2]
  · rw [← (Prod.mk.inj (hp'.symm.trans hp)).2,htook.grows.tlb]

theorem pageFrame_of_aligned {x : Nat} (h : x % 4096 = 0) : pageFrame x = x := by
  unfold pageFrame
  omega

theorem mapped_aligned (hh : Held s own) {sp : AddrSpace} (hsp : s.vm.spaces a = some sp)
    (hl1 : l1Index fa < level1Size) {paddr : Nat} {vm' : Vm}
    (hp : faultPaddr s.vm a sp fa = (.mapped paddr, vm')) : pageFrame paddr = paddr := by
  refine pageFrame_of_aligned ?_
  rcases faultPaddr_took hh.ledger.sane (hh.placed a) hsp hl1 with
    ⟨-,ret,hp',hret⟩ | ⟨-,i,ret,vm₁,hp',htook⟩
  · obtain ⟨rfl,-⟩ := Prod.mk.inj (hp'.symm.trans hp)
    obtain ⟨hvalid,hpaddr⟩ := hret paddr rfl
    cases ht : s.vm.tableAt a (l1Index fa) with
    | none =>
      rw [Vm.pageAt_of_none ht] at hvalid
      cases hvalid
    | some t =>
      rw [Vm.pageAt_of_table ht] at hvalid hpaddr
      obtain ⟨i,ho⟩ := (hh.mapped.valid_iff ht (l2Index_lt fa)).mp hvalid
      obtain ⟨t',ht',-,hpe,-⟩ := hh.mapped.page ho
      obtain rfl := Option.some_inj.mp (ht.symm.trans ht')
      rw [hpaddr,hpe]
      have := Coremap.frameAddr_aligned hh.ledger.sane (hh.ledger.bound ho).1
      dsimp only
      omega
  · obtain ⟨rfl,-⟩ := Prod.mk.inj (hp'.symm.trans hp)
    rcases htook.outcome with ⟨hf,-⟩ | ⟨hm,-⟩
    · cases hf
    · cases hm
      exact Coremap.frameAddr_aligned hh.ledger.sane htook.bound

end

def Machine.refers (m : Machine) (t a : Nat) : Prop := m.vmspace t = some a ∨ m.phase t = .forked a

structure InStep (m : Machine) (own : Nat → Option Owner) : Prop where
  held : Held m.sys own
  live : ∀ {t a}, m.refers t a → m.sys.vm.spaces a ≠ none
  apart : ∀ {t t' a}, m.refers t a → m.refers t' a → t = t'
  user : ∀ {t}, m.phase t = .user → t = m.cur ∧ m.vmspace t ≠ none
  agrees : ∀ {a}, m.phase m.cur = .user ∨ m.phase m.cur = .kernel → m.vmspace m.cur = some a →
    Agrees m.sys.vm a

structure Quiet (s s' : Sys) : Prop where
  tlb : s'.vm.tlb = s.vm.tlb
  alive : ∀ {a}, s.vm.spaces a ≠ none → s'.vm.spaces a ≠ none
  valid : ∀ {a l j}, s.vm.spaces a ≠ none → (s.vm.pageAt a l j).valid = true →
    (s'.vm.pageAt a l j).valid = true

section
variable {m m' : Machine} {own own' : Nat → Option Owner}

theorem InStep.quiet (h : InStep m own) {sys : Sys} (hheld : Held sys own') (hq : Quiet m.sys sys) :
    InStep { m with sys := sys } own' where
  held := hheld
  live hr := hq.alive (h.live hr)
  apart := h.apart
  user := h.user
  agrees hp hv := (h.agrees hp hv).mono hq.tlb (hq.valid (h.live (.inl hv)))

theorem InStep.flush (h : InStep m own) : InStep m.flush own where
  held := h.held.setTlb _
  live := h.live
  apart := h.apart
  user := h.user
  agrees _ _ := .flushed _ _

theorem InStep.goto (h : InStep m own) {p : Phase} (hf : ∀ a, p ≠ .forked a)
    (hu : p = .user → m.vmspace m.cur ≠ none)
    (ha : ∀ a, p = .user ∨ p = .kernel → m.vmspace m.cur = some a → Agrees m.sys.vm a) :
    InStep (m.goto p) own := by
  have hrefers : ∀ {t a}, (m.goto p).refers t a → m.refers t a := by
    intro t a hr
    refine hr.imp id fun hp => ?_
    rcases eq_or_ne t m.cur with rfl | hne
    · simp only [Machine.goto,update_self] at hp
      exact absurd hp (hf a)
    · simpa only [Machine.goto,update_of_ne hne] using hp
  refine ⟨h.held,fun hr => h.live (hrefers hr),fun hr hr' => h.apart (hrefers hr) (hrefers hr'),
    fun {t} hp => ?_,fun {a} hp hv => ?_⟩
  · rcases eq_or_ne t m.cur with rfl | hne
    · simp only [Machine.goto,update_self] at hp
      exact ⟨rfl,hu hp⟩
    · simp only [Machine.goto,update_of_ne hne] at hp
      exact h.user hp
  · simp only [Machine.goto,update_self] at hp
    exact ha a hp hv

theorem InStep.assign (h : InStep m own) {as : Option Nat} {p : Phase}
    (hp : p = .assigned ∨ p = .torn)
    (hlive : ∀ {a}, as = some a → m.sys.vm.spaces a ≠ none)
    (hfree : ∀ {t a}, as = some a → m.refers t a → t = m.cur) :
    InStep ((m.assign as).goto p) own := by
  have hrefers : ∀ {t a}, ((m.assign as).goto p).refers t a →
      (t = m.cur ∧ as = some a) ∨ (t ≠ m.cur ∧ m.refers t a) := by
    intro t a hr
    rcases eq_or_ne t m.cur with rfl | hne
    · rcases hr with hv | hf
      · simp only [Machine.goto,Machine.assign,update_self] at hv
        exact .inl ⟨rfl,hv⟩
      · simp only [Machine.goto,Machine.assign,update_self] at hf
        rcases hp with rfl | rfl <;> cases hf
    · refine .inr ⟨hne,?_⟩
      simpa only [Machine.refers,Machine.goto,Machine.assign,update_of_ne hne] using hr
  refine ⟨h.held,fun hr => ?_,fun hr hr' => ?_,fun {t} hu => ?_,fun hu => ?_⟩
  · rcases hrefers hr with ⟨-,ha⟩ | ⟨-,hr⟩
    · exact hlive ha
    · exact h.live hr
  · rcases hrefers hr with ⟨rfl,ha⟩ | ⟨hne,hr⟩ <;> rcases hrefers hr' with ⟨rfl,ha'⟩ | ⟨hne',hr'⟩
    · rfl
    · exact absurd (hfree ha hr') hne'
    · exact absurd (hfree ha' hr) hne
    · exact h.apart hr hr'
  · rcases eq_or_ne t m.cur with rfl | hne
    · simp only [Machine.goto,Machine.assign,update_self] at hu
      rcases hp with rfl | rfl <;> cases hu
    · simp only [Machine.goto,Machine.assign,update_of_ne hne] at hu ⊢
      exact absurd (h.user hu).1 hne
  · simp only [Machine.goto,Machine.assign,update_self] at hu
    rcases hp with rfl | rfl <;> rcases hu with hu | hu <;> cases hu

end

section Steps
variable {m m' : Machine} {own : Nat → Option Owner} {s s' : Sys} {junk : AddrSpace}

theorem Quiet.of_lvone (htlb : s'.vm.tlb = s.vm.tlb) (htables : s'.vm.tables = s.vm.tables)
    (h : ∀ {a}, s.vm.spaces a ≠ none →
      (s'.vm.spaces a).map (·.lvone) = (s.vm.spaces a).map (·.lvone)) : Quiet s s' where
  tlb := htlb
  alive {a} ha hn := by
    have := h ha
    rw [hn] at this
    exact ha (Option.map_eq_none_iff.mp this.symm)
  valid {a l j} ha hv := by
    unfold Vm.pageAt at hv ⊢
    rw [Vm.tableAt_congr (h ha),htables]
    exact hv

theorem quiet_edit {a : Nat} {f : AddrSpace → AddrSpace} (hf : ∀ sp, (f sp).lvone = sp.lvone)
    (h : s.editSpace a f = some s') : Quiet s s' := by
  obtain ⟨sp,hsp,rfl⟩ := Option.map_eq_some_iff.mp h
  refine .of_lvone rfl rfl fun {a'} _ => ?_
  rcases eq_or_ne a' a with rfl | hne
  · simp [Vm.setSpace,hsp,hf]
  · simp [Vm.setSpace,update_of_ne hne]

theorem quiet_work {op : VmOp} (hw : m.mayWork op) (h : vmStep m.sys op = some s') :
    Quiet m.sys s' ∧ op.disciplined := by
  cases op with
  | allocKpages npages =>
    cases h
    exact ⟨.of_lvone rfl rfl fun _ => rfl,by simpa [Machine.mayWork,VmOp.disciplined] using hw⟩
  | freeKpages a =>
    obtain ⟨-,⟨⟩⟩ := Option.ite_none_right_eq_some.mp h
    exact ⟨.of_lvone rfl rfl fun _ => rfl,trivial⟩
  | asDefineRegion a vaddr sz counter =>
    exact ⟨quiet_edit (fun sp => lvone_asDefineRegion sp vaddr sz counter) h,trivial⟩
  | asDefineStack a => exact ⟨quiet_edit (f := asDefineStack) (fun _ => rfl) h,trivial⟩
  | sysSbrk a size => exact ⟨quiet_edit (lvone_sysSbrk size) h,trivial⟩
  | asCreate | asDestroy | asActivate | vmFault => cases hw

theorem asCreate_quiet (hh : Held s own) {a : Nat} {vm : Vm} (hc : asCreate junk s.vm = (some a, vm)) :
    s.vm.spaces a = none ∧ vm.spaces a ≠ none ∧
      Quiet s ⟨vm, Function.update s.live a (some .space)⟩ := by
  have hlive := hh.asCreate_fresh hc
  have hnone : s.vm.spaces a = none := by
    by_contra hne
    exact nomatch hlive.symm.trans (hh.mapped.space hne)
  rcases asCreate_cases hh.ledger.sane junk with hnone' | ⟨start,sp,-,-,-,hsome⟩
  · rw [hnone'] at hc
    cases hc
  rw [hsome] at hc
  obtain ⟨ha,rfl⟩ := Prod.mk.inj hc
  obtain rfl := Option.some_inj.mp ha
  refine ⟨hnone,by simp [Vm.setSpace],.of_lvone rfl rfl fun {a'} ha' => ?_⟩
  have hne : a' ≠ s.vm.coremap.kvaddr start := fun heq => ha' (heq ▸ hnone)
  simp [Vm.setSpace,Vm.setCoremap,update_of_ne hne]

theorem asCopy_quiet (hh : Held s own) {a : Nat} {old : AddrSpace} {vm : Vm}
    (hc : asCopy junk s.vm old = (some a, vm)) :
    s.vm.spaces a = none ∧ vm.spaces a ≠ none ∧
      Quiet s ⟨vm, Function.update s.live a (some .space)⟩ := by
  unfold asCopy at hc
  split at hc
  · cases hc
  · rename_i new vm₁ hcreate
    obtain ⟨ha,rfl⟩ := Prod.mk.inj hc
    obtain rfl := Option.some_inj.mp ha
    obtain ⟨hnone,hnew,hq⟩ := asCreate_quiet hh hcreate
    obtain ⟨sp,hsp⟩ := Option.ne_none_iff_exists'.mp hnew
    refine ⟨hnone,by simp [hsp],hq.tlb,fun {a'} ha' => ?_,fun {a' l j} ha' hv => ?_⟩
    · have hne : a' ≠ new := fun heq => ha' (heq ▸ hnone)
      simp only [update_of_ne hne]
      exact hq.alive ha'
    · have hne : a' ≠ new := fun heq => ha' (heq ▸ hnone)
      have hpage : Vm.pageAt { vm₁ with
          spaces := update vm₁.spaces new ((vm₁.spaces new).map (copyRegions old)) } a' l j =
            vm₁.pageAt a' l j := by
        have htab : Vm.tableAt { vm₁ with
            spaces := update vm₁.spaces new ((vm₁.spaces new).map (copyRegions old)) } a' l =
            vm₁.tableAt a' l := Vm.tableAt_congr (by simp [update_of_ne hne]) l
        unfold Vm.pageAt
        rw [htab]
      rw [hpage]
      exact hq.valid ha' hv

theorem asCreate_none (hh : Held s own) {vm : Vm} (hc : asCreate junk s.vm = (none, vm)) :
    vm = s.vm := by
  rcases asCreate_cases hh.ledger.sane junk with hnone | ⟨start,sp,-,-,-,hsome⟩
  · exact (Prod.mk.inj (hc.symm.trans hnone)).2
  · exact nomatch (Prod.mk.inj (hc.symm.trans hsome)).1

theorem InStep.create (h : InStep m own) (hjunk : ∀ l1, junk.lvone l1 = none) :
    ∃ own', InStep (m.create junk) own' := by
  unfold Machine.create
  split
  · rename_i vm hc
    rw [asCreate_none h.held hc]
    exact ⟨own,h.assign (.inr rfl) nofun nofun⟩
  · rename_i a vm hc
    obtain ⟨hnone,hnew,hq⟩ := asCreate_quiet h.held hc
    have hstep : vmStep m.sys (.asCreate junk) =
        some ⟨vm,update m.sys.live a (some .space)⟩ := by simp only [vmStep,hc]
    obtain ⟨own',he⟩ := h.held.evolves_create hjunk hstep
    refine ⟨own',(h.quiet he.held hq).assign (.inl rfl) ?_ ?_⟩
    · rintro a' ⟨⟩
      exact hnew
    · rintro t a' ⟨⟩ hr
      exact absurd hnone (h.live hr)

theorem asCopy_none (hh : Held s own) {old : AddrSpace} {vm : Vm}
    (hc : asCopy junk s.vm old = (none, vm)) : vm = s.vm := by
  unfold asCopy at hc
  split at hc
  · rename_i vm' hcreate
    cases hc
    exact asCreate_none hh hcreate
  · cases hc

theorem InStep.fork (h : InStep m own) (hjunk : ∀ l1, junk.lvone l1 = none) {child : Option Nat}
    (hstep : m.fork junk child = some m') : ∃ own', InStep m' own' := by
  obtain ⟨a,-,hcopy⟩ := Option.bind_eq_some_iff.mp hstep
  obtain ⟨old,hold,hcopy⟩ := Option.bind_eq_some_iff.mp hcopy
  rcases hc : asCopy junk m.sys.vm old with ⟨_ | new,vm⟩
  · simp only [hc] at hcopy
    cases hcopy
    rw [asCopy_none h.held hc]
    exact ⟨own,h⟩
  obtain ⟨own',hcopied⟩ := h.held.copied hold hjunk hc
  obtain ⟨hnone,hnew,hq⟩ := asCopy_quiet h.held hc
  have hm := h.quiet hcopied.held hq
  cases child with
  | none =>
    simp only [hc] at hcopy
    cases hcopy
    exact ⟨own',hm⟩
  | some c =>
    simp only [hc] at hcopy
    obtain ⟨-,⟨⟩⟩ := Option.ite_none_right_eq_some.mp hcopy
    have hrefers : ∀ {t a}, ({ m with
        sys := ⟨vm,update m.sys.live new (some .space)⟩
        phase := update m.phase c (.forked new) } : Machine).refers t a →
        m.refers t a ∨ (t = c ∧ a = new) := by
      rintro t a (hr | hr)
      · exact .inl (.inl hr)
      · rcases eq_or_ne t c with rfl | hne
        · simp only [update_self] at hr
          cases hr
          exact .inr ⟨rfl,rfl⟩
        · simp only [update_of_ne hne] at hr
          exact .inl (.inr hr)
    have hfresh : ∀ {t}, ¬ m.refers t new := fun hr => h.live hr hnone
    refine ⟨own',hm.held,fun hr => ?_,fun hr hr' => ?_,fun {t} hu => ?_,fun {a} hu hv => ?_⟩
    · rcases hrefers hr with hr | ⟨-,rfl⟩
      · exact hm.live hr
      · exact hnew
    · rcases hrefers hr with hr₁ | ⟨rfl,rfl⟩ <;> rcases hrefers hr' with hr₂ | ⟨rfl,heq⟩
      · exact h.apart hr₁ hr₂
      · exact absurd (heq ▸ hr₁) hfresh
      · exact absurd hr₂ hfresh
      · rfl
    · rcases eq_or_ne t c with rfl | hne
      · simp only [update_self] at hu
        cases hu
      · simp only [update_of_ne hne] at hu
        exact h.user hu
    · rcases eq_or_ne m.cur c with heq | hne
      · simp only [heq,update_self] at hu
        rcases hu with hu | hu <;> cases hu
      · simp only [update_of_ne hne] at hu
        exact hm.agrees hu hv

theorem InStep.destroy (h : InStep m own) {a : Nat} (hv : m.vmspace m.cur = some a) {sys : Sys}
    (hstep : vmStep m.sys (.asDestroy a) = some sys) :
    ∃ own', InStep ((({ m with sys := sys } : Machine).assign none).goto .torn) own' := by
  obtain ⟨own',he⟩ := h.held.evolves_destroy hstep
  simp only [vmStep,Option.map_eq_some_iff] at hstep
  obtain ⟨sp,hsp,rfl⟩ := hstep
  have hspaces : ∀ {a'}, a' ≠ a → (asDestroy m.sys.vm a sp).spaces a' = m.sys.vm.spaces a' := by
    intro a' hne
    simp only [asDestroy,update_of_ne hne,destroyTables_spaces]
  have hrefers : ∀ {t a'}, ((({ m with
      sys := ⟨asDestroy m.sys.vm a sp,update m.sys.live a none⟩ } : Machine).assign none).goto
        .torn).refers t a' → m.refers t a' ∧ a' ≠ a := by
    intro t a' hr
    rcases eq_or_ne t m.cur with rfl | hne
    · rcases hr with hr | hr <;> simp [Machine.goto,Machine.assign] at hr
    · have hr : m.refers t a' := by
        simpa only [Machine.refers,Machine.goto,Machine.assign,update_of_ne hne] using hr
      exact ⟨hr,fun heq => hne (h.apart (heq ▸ hr) (.inl hv))⟩
  refine ⟨own',he.held,fun hr => ?_,fun hr hr' => h.apart (hrefers hr).1 (hrefers hr').1,
    fun {t} hu => ?_,fun hu => ?_⟩
  · obtain ⟨hr,hne⟩ := hrefers hr
    have := h.live hr
    rwa [← hspaces hne] at this
  · rcases eq_or_ne t m.cur with rfl | hne
    · simp [Machine.goto,Machine.assign] at hu
    · simp only [Machine.goto,Machine.assign,update_of_ne hne] at hu
      exact absurd (h.user hu).1 hne
  · simp [Machine.goto,Machine.assign] at hu

theorem InStep.switch (h : InStep m own) {t : Nat} (hcur : m.phase m.cur ≠ .user) :
    InStep (if m.vmspace t ≠ none then ({ m with cur := t } : Machine).flush else { m with cur := t })
      own := by
  have hno : ∀ {t}, m.phase t ≠ .user := fun {t} hu => hcur ((h.user hu).1 ▸ hu)
  split
  · exact ⟨h.held.setTlb _,h.live,h.apart,fun hu => absurd hu hno,fun _ _ => .flushed _ _⟩
  · rename_i hnone
    exact ⟨h.held,h.live,h.apart,fun hu => absurd hu hno,
      fun {a} _ hv => absurd hv fun hv => hnone (by rw [show m.vmspace t = some a from hv]; exact nofun)⟩

theorem InStep.spawn (h : InStep m own) {t : Nat} (hcur : m.phase m.cur = .kernel)
    (ht : m.phase t = .unborn) :
    InStep { m with phase := Function.update m.phase t .kernel } own := by
  have hphase : ∀ {u p}, p ≠ .kernel → update m.phase t .kernel u = p → m.phase u = p := by
    intro u p hp hu
    rcases eq_or_ne u t with rfl | hut
    · rw [update_self] at hu
      exact absurd hu.symm hp
    · rwa [update_of_ne hut] at hu
  have hrefers : ∀ {u a}, ({ m with phase := update m.phase t .kernel } : Machine).refers u a →
      m.refers u a := fun hr => hr.imp id (hphase nofun)
  refine ⟨h.held,fun hr => h.live (hrefers hr),fun hr hr' => h.apart (hrefers hr) (hrefers hr'),
    fun hu => h.user (hphase nofun hu),fun _ hv => h.agrees (.inr hcur) hv⟩

theorem InStep.step (h : InStep m own) {act : Act} (hz : act.zeroed) (hstep : m.step act = some m') :
    ∃ own', InStep m' own' := by
  cases act with
  | trap =>
    obtain ⟨hu,⟨⟩⟩ := Option.ite_none_right_eq_some.mp hstep
    exact ⟨own,h.goto nofun nofun fun a _ hv => h.agrees (.inl hu) hv⟩
  | usermode =>
    obtain ⟨hk,⟨⟩⟩ := Option.ite_none_right_eq_some.mp hstep
    exact ⟨own,h.goto nofun (fun _ => hk.2) fun a _ hv => h.agrees (.inr hk.1) hv⟩
  | fault ft fa random =>
    obtain ⟨hp,hstep⟩ := Option.ite_none_right_eq_some.mp hstep
    obtain ⟨sys,hf,rfl⟩ := Option.map_eq_some_iff.mp hstep
    obtain ⟨own',he⟩ := h.held.evolves_fault hf
    cases hv : m.vmspace m.cur with
    | none =>
      rw [hv] at hf
      rw [fault_none hf]
      exact ⟨own,h⟩
    | some a =>
      rw [hv] at hf
      obtain ⟨hag,halive⟩ := fault_agrees h.held (h.agrees hp.1 hv) hp.2 hf
      refine ⟨own',he.held,fun hr => halive (h.live hr),h.apart,h.user,fun {a'} _ hv' => ?_⟩
      obtain rfl := Option.some_inj.mp (hv.symm.trans hv')
      exact hag
  | activate =>
    obtain ⟨-,⟨⟩⟩ := Option.ite_none_right_eq_some.mp hstep
    exact ⟨own,h.flush.goto nofun nofun fun _ _ _ => .flushed _ _⟩
  | create junk =>
    obtain ⟨-,⟨⟩⟩ := Option.ite_none_right_eq_some.mp hstep
    exact h.create hz
  | fork junk child =>
    obtain ⟨-,hstep⟩ := Option.ite_none_right_eq_some.mp hstep
    exact h.fork hz hstep
  | forkentry =>
    simp only [Machine.step] at hstep
    split at hstep
    · rename_i a hf
      cases hstep
      refine ⟨own,h.assign (.inl rfl) ?_ ?_⟩
      · rintro a' ⟨⟩
        exact h.live (.inr hf)
      · rintro t a' ⟨⟩ hr
        exact h.apart hr (.inr hf)
    · cases hstep
  | destroy =>
    obtain ⟨-,hstep⟩ := Option.ite_none_right_eq_some.mp hstep
    obtain ⟨a,hv,hstep⟩ := Option.bind_eq_some_iff.mp hstep
    obtain ⟨sys,hd,hstep⟩ := Option.bind_eq_some_iff.mp hstep
    cases hstep
    exact h.destroy hv hd
  | spawn t =>
    obtain ⟨ht,⟨⟩⟩ := Option.ite_none_right_eq_some.mp hstep
    exact ⟨own,h.spawn ht.1 ht.2⟩
  | switch t =>
    obtain ⟨ht,⟨⟩⟩ := Option.ite_none_right_eq_some.mp hstep
    exact ⟨own,h.switch ht.1⟩
  | work op =>
    obtain ⟨hw,hstep⟩ := Option.ite_none_right_eq_some.mp hstep
    obtain ⟨sys,hs,rfl⟩ := Option.map_eq_some_iff.mp hstep
    obtain ⟨hq,hd⟩ := quiet_work hw.2 hs
    obtain ⟨own',he⟩ := h.held.step hd hs
    exact ⟨own',h.quiet he.held hq⟩

theorem InStep.boot {ram : Ram} (hram : ram.Accepted) (entries : Nat → CoremapEntry)
    (tlb : Nat → TlbEntry) (tables : Nat → Lv2pt) :
    InStep (Machine.boot ram entries tlb tables) fun _ => none := by
  have hheld := held_boot hram entries tlb
  have hnone : ∀ as l1, (Machine.boot ram entries tlb tables).sys.vm.tableAt as l1 = none :=
    fun _ _ => Vm.tableAt_of_none rfl
  have hphase : ∀ {t p}, (Machine.boot ram entries tlb tables).phase t = p → p = .kernel ∨ p = .unborn := by
    rintro t p rfl
    simp only [Machine.boot]
    split
    · exact .inl rfl
    · exact .inr rfl
  have hrefers : ∀ {t a}, ¬ (Machine.boot ram entries tlb tables).refers t a := by
    rintro t a (hv | hf)
    · cases hv
    · rcases hphase hf with h | h <;> cases h
  refine ⟨⟨hheld.ledger,?_⟩,fun hr => absurd hr hrefers,fun hr => absurd hr hrefers,
    fun hu => ?_,fun _ hv => nomatch hv⟩
  · refine ⟨(nomatch ·),fun ht => ?_,fun ht => ?_,fun hs => absurd rfl hs,fun ht => ?_,
      fun ht => ?_⟩
    all_goals exact nomatch (hnone _ _).symm.trans ht
  · rcases hphase hu with h | h <;> cases h

end Steps

structure Consistent (m : Machine) : Prop where
  distinct : ∀ i < numTlb, ∀ j < numTlb, (m.sys.vm.tlb i).vpage = (m.sys.vm.tlb j).vpage → i = j
  mapped : ∃ a, m.vmspace m.cur = some a ∧ ∀ i < numTlb, (m.sys.vm.tlb i).valid = true →
    (m.sys.vm.pageAt a (l1Index (m.sys.vm.tlb i).hi) (l2Index (m.sys.vm.tlb i).hi)).valid = true
  installs : ∀ {a sp faulttype fa random paddr vm}, m.vmspace m.cur = some a →
    m.sys.vm.spaces a = some sp → faulttype ≠ .readonly → fa < usertop →
    faultPaddr m.sys.vm a sp (pageFrame fa) = (.mapped paddr, vm) →
    ∃ i < numTlb, vmFault m.sys.vm (some a) faulttype fa random = .ok (none, { vm with
      tlb := Function.update m.sys.vm.tlb i ⟨pageFrame fa, paddr ||| tlbloDirty ||| tlbloValid⟩ })

theorem InStep.consistent {m : Machine} {own : Nat → Option Owner} (h : InStep m own)
    (hu : m.phase m.cur = .user) : Consistent m := by
  obtain ⟨a,hv⟩ := Option.ne_none_iff_exists'.mp (h.user hu).2
  have hag := h.agrees (.inl hu) hv
  refine ⟨hag.distinct,⟨a,hv,fun i hi hvalid => ?_⟩,?_⟩
  · rcases hag.entry i hi with hinv | hpage
    · rw [hinv] at hvalid
      simp [TlbEntry.valid,tlbInvalid] at hvalid
    · exact hpage.2
  · intro a sp ft fa random paddr vm hv hsp hft hfa hp
    have halign := mapped_aligned h.held hsp (l1Index_lt hfa) hp
    obtain ⟨i,hi,hok⟩ := @installPage_one random paddr vm (pageFrame fa) halign
    refine ⟨i,hi,?_⟩
    rw [vmFault_eq hsp hft,hp,hok,faultPaddr_tlb h.held hsp (l1Index_lt hfa) hp]

theorem tlb_consistent_along {ram : Ram} (hram : ram.Accepted) {entries : Nat → CoremapEntry}
    {tlb : Nat → TlbEntry} {tables : Nat → Lv2pt} {acts : List Act} {m : Machine}
    (hz : Run.Along Machine.step (fun _ act => act.zeroed) (Machine.boot ram entries tlb tables) acts)
    (hrun : Run.exec Machine.step (Machine.boot ram entries tlb tables) acts = some m)
    (hu : m.phase m.cur = .user) : Consistent m := by
  obtain ⟨own,h⟩ := Run.invariant (I := fun m => ∃ own, InStep m own)
    (fun m act m' ⟨own,h⟩ hz hstep => h.step hz hstep) ⟨_,.boot hram entries tlb tables⟩ hz hrun
  exact h.consistent hu

def smallBoot (tables : Nat → Lv2pt) : Machine :=
  Machine.boot ⟨0x10000, 0x19000⟩ (fun _ => zeroEntry) tlbInvalid tables

def forkRun : List Act :=
  [.create zeroSpace, .activate, .work (.asDefineStack 0x80011000), .usermode,
    .fault .write 0x7ffff000 0, .trap, .fork zeroSpace (some 1), .activate, .usermode, .trap,
    .switch 1, .forkentry, .activate, .usermode]

theorem tlb_consistent_forked_child :
    ∃ m, Run.exec Machine.step (smallBoot fun _ => lv2Empty) forkRun = some m ∧
      m.cur = 1 ∧ m.phase 1 = .user ∧ Consistent m := by
  have hview : (Run.exec Machine.step (smallBoot fun _ => lv2Empty) forkRun).map
      (fun m => (m.cur, m.phase 1)) = some (1, .user) := by decide +kernel
  obtain ⟨m,hrun,hm⟩ := Option.map_eq_some_iff.mp hview
  obtain ⟨hcur,hphase⟩ := Prod.mk.inj hm
  refine ⟨m,hrun,hcur,hphase,tlb_consistent_along ⟨by decide,by decide,by decide,by decide⟩
    (Run.along_of_forall ?_) hrun (by rw [hcur,hphase])⟩
  simp [forkRun,Act.zeroed,zeroSpace]

def staleSpace : AddrSpace :=
  { zeroSpace with lvone := fun l1 => if l1 = 1 then some 0x80013000 else none }

theorem stale_table_breaks_tlb :
    ∃ m, Run.exec Machine.step (smallBoot fun _ _ => ⟨none, 0, true⟩)
        [.create staleSpace, .activate, .work (.asDefineStack 0x80011000), .usermode,
          .fault .read 0x400000 0, .fault .write 0x7ffff000 0] = some m ∧
      m.phase m.cur = .user ∧ ¬ Consistent m := by
  have hview : (Run.exec Machine.step (smallBoot fun _ _ => ⟨none,0,true⟩)
      [.create staleSpace,.activate,.work (.asDefineStack 0x80011000),.usermode,
        .fault .read 0x400000 0,.fault .write 0x7ffff000 0]).map (fun m =>
          (m.phase m.cur, m.vmspace m.cur, (m.sys.vm.tlb 0).valid, (m.sys.vm.tlb 0).hi,
            (m.sys.vm.pageAt 0x80011000 1 0).valid)) =
      some (.user, some 0x80011000, true, 0x400000, false) := by decide +kernel
  obtain ⟨m,hrun,hm⟩ := Option.map_eq_some_iff.mp hview
  simp only [Prod.mk.injEq] at hm
  obtain ⟨hphase,hspace,hvalid,hhi,hpage⟩ := hm
  refine ⟨m,hrun,hphase,fun hc => ?_⟩
  obtain ⟨a,ha,hmapped⟩ := hc.mapped
  obtain rfl := Option.some_inj.mp (hspace.symm.trans ha)
  have := hmapped 0 (by decide) hvalid
  rw [hhi] at this
  exact nomatch hpage.symm.trans this

end Tlb

end OS161
