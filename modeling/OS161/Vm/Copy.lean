import OS161.Vm.Exclusive
import OS161.Vm.Growth

namespace OS161

open Function

open Holding

def copyRegions (old new : AddrSpace) : AddrSpace :=
  { new with
    vbase1 := old.vbase1, npages1 := old.npages1, vbase2 := old.vbase2, npages2 := old.npages2 }

def asCopy (junk : AddrSpace) (vm : Vm) (old : AddrSpace) : Option Nat × Vm :=
  match asCreate junk vm with
  | (none, vm) => (none, vm)
  | (some new, vm) =>
    (some new, { vm with
      spaces := Function.update vm.spaces new ((vm.spaces new).map (copyRegions old)) })

structure Paged where
  vm : Vm
  ram : Nat → UInt8

def bzeroPage (ram : Nat → UInt8) (paddr : Nat) : Nat → UInt8 := fun x =>
  if paddr ≤ x ∧ x < paddr + pageSize then 0 else ram x

namespace Paged

-- incStack and incHeap clear the frame they map, an entry that is already valid is used as it is.
def fault (m : Paged) (as : Nat) (sp : AddrSpace) (fa : Nat) : IncRet × Paged :=
  match faultPaddr m.vm as sp fa with
  | (.failed code, vm) => (.failed code, { m with vm := vm })
  | (.mapped paddr, vm) =>
    (.mapped paddr,
      ⟨vm, if (pageEntryOf m.vm sp fa).isSome then m.ram else bzeroPage m.ram paddr⟩)

def load (m : Paged) (as va : Nat) : Option UInt8 :=
  match m.vm.spaces as with
  | none => none
  | some sp =>
    match m.fault as sp (pageFrame va) with
    | (.failed _, _) => none
    | (.mapped paddr, m) => some (m.ram (paddr + va % 4096))

def store (m : Paged) (as va : Nat) (b : UInt8) : Option Paged :=
  match m.vm.spaces as with
  | none => none
  | some sp =>
    match m.fault as sp (pageFrame va) with
    | (.failed _, _) => none
    | (.mapped paddr, m) =>
      some { m with ram := Function.update m.ram (paddr + va % 4096) b }

end Paged

def Touched (vm : Vm) (as va : Nat) : Prop :=
  ∃ sp, vm.spaces as = some sp ∧ pageEntryOf vm sp (pageFrame va) ≠ none

-- An untouched page has no frame yet, and a store through the other space can take the last one.
structure CopiesMemory (s : Sys) (ram : Nat → UInt8) (old new : Nat) : Prop where
  bounds : ∀ sp np, s.vm.spaces old = some sp → s.vm.spaces new = some np →
    np.heapStart = sp.heapStart ∧ np.heapEnd = sp.heapEnd ∧ np.eoStack = sp.eoStack
  loads : ∀ va, va < usertop → Paged.load ⟨s.vm, ram⟩ new va = Paged.load ⟨s.vm, ram⟩ old va
  apart : ∀ ops s₁, (∀ op ∈ ops, op.disciplined ∧ op ≠ .asDestroy old ∧ op ≠ .asDestroy new) →
    Run.exec vmStep s ops = some s₁ → ∀ x y, x = old ∧ y = new ∨ x = new ∧ y = old →
    ∀ ram₁ va va' b c m₂, va < usertop → va' < usertop →
    Paged.store ⟨s₁.vm, ram₁⟩ x va b = some m₂ → Paged.load ⟨s₁.vm, ram₁⟩ y va' = some c →
    m₂.load y va' = some c ∨ ¬ Touched s₁.vm y va' ∧ m₂.load y va' = none

theorem tableAt_shrinkStack (vm : Vm) (as as' l1 : Nat) :
    (shrinkStack vm as).tableAt as' l1 = vm.tableAt as' l1 := by
  unfold shrinkStack
  split
  · rfl
  · rename_i sp hsp
    refine Vm.tableAt_congr ?_ l1
    by_cases has : as' = as
    · simp [Vm.setSpace,has,hsp]
    · simp [Vm.setSpace,update_of_ne has]

theorem spaces_asCreate {junk : AddrSpace} {vm vm' : Vm} {new : Nat}
    (h : asCreate junk vm = (some new, vm')) :
    vm'.spaces = Function.update vm.spaces new (some { junk with
      vbase1 := 0, npages1 := 0, vbase2 := 0, npages2 := 0, heapStart := 0
      v := none, eoStack := 0 }) := by
  unfold asCreate at h
  dsimp only at h
  split at h
  · cases h
  · cases h
    rfl

def LowFrames (c : Coremap) : Prop := c.freePagesStr + c.count * 4096 ≤ 2 ^ 20

section
variable {s : Sys} {own : Nat → Option Owner}

variable (hh : Held s own) (hlow : LowFrames s.vm.coremap)

include hh hlow in
theorem Held.frame_low {i : Nat} (hi : i < s.vm.coremap.count) :
    s.vm.coremap.frameAddr i % 2 ^ 20 = s.vm.coremap.frameAddr i := by
  refine Nat.mod_eq_of_lt ?_
  rw [Coremap.frameAddr_eq hh.ledger.sane hi]
  unfold LowFrames at hlow
  omega

include hh hlow in
theorem Held.fault_page (ram : Nat → UInt8) {i as va : Nat}
    (ho : own i = some (.page as (l1Index (pageFrame va)) (l2Index (pageFrame va)))) :
    ∃ sp, s.vm.spaces as = some sp ∧ Paged.fault ⟨s.vm, ram⟩ as sp (pageFrame va) =
      (.mapped (s.vm.coremap.frameAddr i), ⟨s.vm, ram⟩) := by
  obtain ⟨t,ht,hl2,hpe,-⟩ := hh.mapped.page ho
  obtain ⟨sp,hsp,hl1,ht⟩ := Vm.tableAt_some ht
  refine ⟨sp,hsp,?_⟩
  simp only [Paged.fault,faultPaddr,pageEntryOf,ht,hpe,if_true,
    hh.frame_low hlow (hh.ledger.bound ho).1,Option.isSome_some]

include hh hlow in
theorem Held.load_page (ram : Nat → UInt8) {i as va : Nat}
    (ho : own i = some (.page as (l1Index (pageFrame va)) (l2Index (pageFrame va)))) :
    Paged.load ⟨s.vm, ram⟩ as va = some (ram (s.vm.coremap.frameAddr i + va % 4096)) := by
  obtain ⟨sp,hsp,hf⟩ := hh.fault_page hlow ram ho
  simp only [Paged.load,hsp,hf]

theorem Held.touched_iff (hh : Held s own) {as va : Nat} (hva : va < usertop) :
    Touched s.vm as va ↔
      ∃ i, own i = some (.page as (l1Index (pageFrame va)) (l2Index (pageFrame va))) := by
  have hl1 := l1Index_lt hva
  constructor
  · rintro ⟨sp,hsp,hpe⟩
    unfold pageEntryOf at hpe
    split at hpe
    · exact absurd rfl hpe
    · rename_i t ht
      refine (hh.mapped.valid_iff ((Vm.tableAt_of_space hsp hl1).trans ht) (l2Index_lt _)).mp ?_
      by_contra hv
      simp [hv] at hpe
  · rintro ⟨i,ho⟩
    obtain ⟨t,ht,hl2,hpe,-⟩ := hh.mapped.page ho
    obtain ⟨sp,hsp,-,ht⟩ := Vm.tableAt_some ht
    exact ⟨sp,hsp,by simp [pageEntryOf,ht,hpe]⟩

end

section
variable {vm : Vm} {as fa : Nat} {sp sp' : AddrSpace}

def IncRet.isMapped : IncRet → Bool
  | .failed _ => false
  | .mapped _ => true

def canMap (vm : Vm) (hasTable : Bool) : Bool :=
  match allocatePhysicalPage vm.phys with
  | none => false
  | some (_, phys) => hasTable || (kmallocPages sizeofLv2pt phys).1 ≠ 0

theorem canMap_mono {t : Bool} (h : canMap vm false = true) : canMap vm t = true := by
  unfold canMap at h ⊢
  split at h
  · cases h
  · rename_i heq
    simp only [Bool.false_or] at h
    rw [h,Bool.or_true]

theorem incPage_isMapped :
    (incPage vm as sp fa).1.isMapped = canMap vm (sp.lvone (l1Index fa)).isSome := by
  unfold incPage canMap
  cases allocatePhysicalPage vm.phys with
  | none => rfl
  | some r =>
    obtain ⟨i,phys⟩ := r
    unfold lv2Table
    cases sp.lvone (l1Index fa) with
    | some t => rfl
    | none =>
      dsimp only
      by_cases hk : (kmallocPages sizeofLv2pt phys).1 = 0
      · simp [hk,IncRet.isMapped]
      · simp [hk,IncRet.isMapped]

theorem faultPaddr_isMapped (hno : pageEntryOf vm sp fa = none) :
    (faultPaddr vm as sp fa).1.isMapped =
      (decide (position sp fa ≠ .nowhere) && canMap vm (sp.lvone (l1Index fa)).isSome) := by
  have hinc := @incPage_isMapped vm as fa sp
  simp only [faultPaddr,hno]
  cases position sp fa with
  | nowhere => rfl
  | heap => exact hinc
  | stack =>
    simp only [incStack]
    split
    · rename_i heq
      rw [heq] at hinc
      exact hinc
    · rename_i heq
      rw [heq] at hinc
      exact hinc

theorem load_untouched (ram : Nat → UInt8) (va : Nat) (hsp : vm.spaces as = some sp)
    (hno : pageEntryOf vm sp (pageFrame va) = none) :
    Paged.load ⟨vm, ram⟩ as va = if position sp (pageFrame va) ≠ .nowhere ∧
      canMap vm (sp.lvone (l1Index (pageFrame va))).isSome then some 0 else none := by
  have hm := @faultPaddr_isMapped vm as _ sp hno
  simp only [Paged.load,Paged.fault,hsp,hno]
  cases hf : faultPaddr vm as sp (pageFrame va) with
  | mk r vm' =>
    rw [hf] at hm
    cases r with
    | failed code =>
      rw [if_neg (by simpa [IncRet.isMapped] using hm.symm)]
    | mapped paddr =>
      rw [if_pos (by simpa [IncRet.isMapped] using hm.symm)]
      simp [bzeroPage,Nat.mod_lt,pageSize]

theorem load_untouched_zero {ram : Nat → UInt8} {va : Nat} {c : UInt8} (h : ¬ Touched vm as va)
    (hload : Paged.load ⟨vm, ram⟩ as va = some c) : c = 0 := by
  cases hsp : vm.spaces as with
  | none =>
    simp only [Paged.load,hsp] at hload
    cases hload
  | some sp =>
    have hno : pageEntryOf vm sp (pageFrame va) = none := by
      by_contra hpe
      exact h ⟨sp,hsp,hpe⟩
    rw [load_untouched ram _ hsp hno,Option.ite_none_right_eq_some] at hload
    exact (Option.some.inj hload.2).symm

theorem load_touched (ram : Nat → UInt8) {va : Nat} (h : Touched vm as va) :
    ∃ c, Paged.load ⟨vm, ram⟩ as va = some c := by
  obtain ⟨sp,hsp,hpe⟩ := h
  obtain ⟨pe,hpe⟩ := Option.ne_none_iff_exists'.mp hpe
  simp [Paged.load,Paged.fault,faultPaddr,hsp,hpe]

theorem position_congr (hstart : sp'.heapStart = sp.heapStart) (hend : sp'.heapEnd = sp.heapEnd)
    (hstack : sp'.eoStack = sp.eoStack) : position sp' fa = position sp fa := by
  unfold position stackSpent
  rw [hstart,hend,hstack]

end

theorem lowFrames_of_same {c d : Coremap} (h : c.SameFrames d) (hlow : LowFrames c) :
    LowFrames d := by
  unfold LowFrames
  rw [h.freePagesStr,h.count]
  exact hlow

structure Stored (s : Sys) (own : Nat → Option Owner) (ram : Nat → UInt8) (as i : Nat) (m : Paged)
    (live' : Nat → Option Kind) (own' : Nat → Option Owner) : Prop where
  held : Held ⟨m.vm, live'⟩ own'
  frames : s.vm.coremap.SameFrames m.vm.coremap
  owner : ∃ l1 l2, own' i = some (.page as l1 l2)
  kept : ∀ {j o}, own j = some o → own' j = some o
  pages : ∀ {j a l1 l2}, own' j = some (.page a l1 l2) → a ≠ as → own j = some (.page a l1 l2)
  ram : ∀ x, (x < s.vm.coremap.frameAddr i ∨ s.vm.coremap.frameAddr i + 4096 ≤ x) → m.ram x = ram x

section
variable {s : Sys} {own : Nat → Option Owner} {ram : Nat → UInt8} (hh : Held s own)
  (hlow : LowFrames s.vm.coremap)
include hh hlow

theorem Held.stored {as va : Nat} {b : UInt8} {m : Paged} (hva : va < usertop)
    (h : Paged.store ⟨s.vm, ram⟩ as va b = some m) :
    ∃ i live' own', Stored s own ram as i m live' own' := by
  have hl1 := l1Index_lt hva
  have hoff := Nat.mod_lt va (by decide : 0 < 4096)
  by_cases ht : Touched s.vm as va
  · obtain ⟨i,ho⟩ := (hh.touched_iff hva).mp ht
    obtain ⟨sp,hsp,hf⟩ := hh.fault_page hlow ram ho
    simp only [Paged.store,hsp,hf,Option.some.injEq] at h
    subst h
    refine ⟨i,s.live,own,hh,Coremap.SameFrames.refl _,⟨_,_,ho⟩,id,fun ho _ => ho,fun x hx => ?_⟩
    exact update_of_ne (by omega) _ _
  · unfold Paged.store at h
    split at h
    · cases h
    · rename_i sp hsp
      rcases hh.faultPaddr_cases hsp hl1 with ⟨pe,hpe,-⟩ | ⟨hno,⟨-,hp⟩ | ⟨-,⟨hp,-⟩ |
        ⟨i,phys,-,-,-,hp⟩ | ⟨i,vm',own',-,hp,hg⟩⟩⟩
      · exact absurd ⟨sp,hsp,by simp [hpe]⟩ ht
      all_goals
        simp only [Paged.fault,hp,hno] at h
        cases h
      refine ⟨i,_,own',hg.held,hg.frames,⟨_,_,hg.owner⟩,hg.kept,hg.pages,fun x hx => ?_⟩
      have hne : x ≠ s.vm.coremap.frameAddr i + va % 4096 := by omega
      have hout : ¬ (s.vm.coremap.frameAddr i ≤ x ∧ x < s.vm.coremap.frameAddr i + pageSize) := by
        unfold pageSize
        omega
      simp [update_of_ne hne,bzeroPage,if_neg hout]

theorem Held.store_apart {x y va va' : Nat} (hxy : x ≠ y) (hva : va < usertop)
    (hva' : va' < usertop) {b c : UInt8} {m : Paged}
    (hstore : Paged.store ⟨s.vm, ram⟩ x va b = some m)
    (hload : Paged.load ⟨s.vm, ram⟩ y va' = some c) :
    m.load y va' = some c ∨ ¬ Touched s.vm y va' ∧ m.load y va' = none := by
  obtain ⟨i,live',own',hs⟩ := hh.stored hlow hva hstore
  by_cases hy : Touched s.vm y va'
  · obtain ⟨j,hj⟩ := (hh.touched_iff hva').mp hy
    obtain ⟨l1,l2,hi⟩ := hs.owner
    have hij : j ≠ i := by
      rintro rfl
      rw [hs.kept hj,Option.some_inj] at hi
      exact hxy (Owner.page.inj hi).1.symm
    have hbi : i < s.vm.coremap.count := hs.frames.count ▸ (hs.held.ledger.bound hi).1
    have hbj := (hh.ledger.bound hj).1
    have hout : s.vm.coremap.frameAddr j + va' % 4096 < s.vm.coremap.frameAddr i ∨
        s.vm.coremap.frameAddr i + 4096 ≤ s.vm.coremap.frameAddr j + va' % 4096 := by
      rw [Coremap.frameAddr_eq hh.ledger.sane hbi,Coremap.frameAddr_eq hh.ledger.sane hbj]
      omega
    rw [hh.load_page hlow ram hj,← hs.ram _ hout] at hload
    left
    rw [← hload,← congrFun hs.frames.frameAddr j]
    exact hs.held.load_page (lowFrames_of_same hs.frames hlow) m.ram (hs.kept hj)
  · have hy' : ¬ Touched m.vm y va' := by
      intro ht
      obtain ⟨j,hj⟩ := (hs.held.touched_iff hva').mp ht
      exact hy ((hh.touched_iff hva').mpr ⟨j,hs.pages hj hxy.symm⟩)
    have hc : c = 0 := load_untouched_zero hy hload
    cases hload' : m.load y va' with
    | none => exact .inr ⟨hy,rfl⟩
    | some c' =>
      rw [hc,load_untouched_zero hy' hload']
      exact .inl rfl

end

def freshSpace (junk : AddrSpace) : AddrSpace :=
  { junk with
    vbase1 := 0, npages1 := 0, vbase2 := 0, npages2 := 0, heapStart := 0, v := none, eoStack := 0 }

structure Copied (s : Sys) (own : Nat → Option Owner) (as new : Nat) (sp np : AddrSpace) (s' : Sys)
    (own' : Nat → Option Owner) : Prop where
  held : Held s' own'
  frames : s.vm.coremap.SameFrames s'.vm.coremap
  kept : ∀ {i as l1 l2}, own i = some (.page as l1 l2) → own' i = some (.page as l1 l2)
  apart : as ≠ new
  old : s'.vm.spaces as = some sp
  copy : s'.vm.spaces new = some np

section
variable {s : Sys} {own : Nat → Option Owner} {as new : Nat} {sp junk : AddrSpace} {vm' : Vm}

theorem Held.asCreate_fresh (hh : Held s own) (h : asCreate junk s.vm = (some new, vm')) :
    s.live new = none := by
  rcases asCreate_cases hh.ledger.sane junk with hfull | ⟨start,sp',hlt,hfree,-,hgot⟩
  · rw [hfull] at h
    cases h
  · rw [hgot] at h
    obtain ⟨hnew,-⟩ := Prod.mk.inj h
    rw [← Option.some_inj.mp hnew]
    exact hh.ledger.fresh hlt (by rw [hfree]; decide)

theorem Held.copied (hh : Held s own) (hsp : s.vm.spaces as = some sp)
    (hjunk : ∀ l1, junk.lvone l1 = none) (hcopy : asCopy junk s.vm sp = (some new, vm')) :
    ∃ own', Copied s own as new sp (copyRegions sp (freshSpace junk))
      ⟨vm', Function.update s.live new (some .space)⟩ own' := by
  unfold asCopy at hcopy
  split at hcopy
  · cases hcopy
  · rename_i new' vm₁ hcreate
    cases hcopy
    have hstep : vmStep s (.asCreate junk) = some ⟨vm₁,update s.live new (some .space)⟩ := by
      simp only [vmStep,hcreate]
    obtain ⟨own',he⟩ := hh.evolves_create hjunk hstep
    have hspaces := spaces_asCreate hcreate
    have hne : as ≠ new := by
      rintro rfl
      have hlive : s.live as = some .space := hh.mapped.space (by rw [hsp]; simp)
      rw [hh.asCreate_fresh hcreate] at hlive
      cases hlive
    have hnp : vm₁.spaces new = some (freshSpace junk) := by
      rw [hspaces,update_self]
      rfl
    refine ⟨own',?_,he.frames,fun ho => he.kept ho (by simp),hne,?_,?_⟩
    · rw [hnp]
      exact he.held.setSpace hnp rfl
    · simp only [update_of_ne hne]
      rw [hspaces,update_of_ne hne,hsp]
    · simp only [update_self]
      rw [hnp]
      rfl

end

section Exact
variable {s s' : Sys} {own own' : Nat → Option Owner} {as new : Nat} {sp np : AddrSpace}
  (hc : Copied s own as new sp np s' own') (hlow : LowFrames s.vm.coremap)
include hc

theorem Copied.loads_iff (ram : Nat → UInt8) (hstart : np.heapStart = sp.heapStart)
    (hend : np.heapEnd = sp.heapEnd) (hstack : np.eoStack = sp.eoStack)
    (hnp : ∀ l1, np.lvone l1 = none) (va : Nat) :
    Paged.load ⟨s'.vm, ram⟩ new va = Paged.load ⟨s'.vm, ram⟩ as va ↔
      ∀ c, Paged.load ⟨s'.vm, ram⟩ as va = some c →
        c = 0 ∧ position sp (pageFrame va) ≠ .nowhere ∧ canMap s'.vm false := by
  have hnew := load_untouched ram va hc.copy (by simp [pageEntryOf,hnp])
  rw [hnp,Option.isSome_none,position_congr hstart hend hstack] at hnew
  constructor
  · intro heq c hload
    rw [← heq,hnew,Option.ite_none_right_eq_some] at hload
    exact ⟨(Option.some.inj hload.2).symm,hload.1⟩
  · intro h
    cases hload : Paged.load ⟨s'.vm,ram⟩ as va with
    | some c =>
      obtain ⟨rfl,hroom⟩ := h c hload
      rw [hnew,if_pos hroom]
    | none =>
      have hno : pageEntryOf s'.vm sp (pageFrame va) = none := by
        by_contra hpe
        obtain ⟨c,hc'⟩ := load_touched ram ⟨sp,hc.old,hpe⟩
        rw [hload] at hc'
        cases hc'
      rw [load_untouched ram _ hc.old hno] at hload
      rw [hnew,if_neg]
      rintro ⟨hpos,hroom⟩
      rw [if_pos ⟨hpos,canMap_mono hroom⟩] at hload
      cases hload

include hlow

theorem Copied.apart_run {ops : List VmOp} {s₁ : Sys} (hops : ∀ op ∈ ops, op.disciplined)
    (hrun : Run.exec vmStep s' ops = some s₁) : ∃ own₁, Held s₁ own₁ ∧ LowFrames s₁.vm.coremap := by
  refine Run.invariant (I := fun s => ∃ own, Held s own ∧ LowFrames s.vm.coremap) ?_
    ⟨own',hc.held,lowFrames_of_same hc.frames hlow⟩ (Run.along_of_forall hops) hrun
  rintro t op t' ⟨own,hh,hl⟩ hd hstep
  obtain ⟨own₂,he⟩ := hh.step hd hstep
  exact ⟨own₂,he.held,lowFrames_of_same he.frames hl⟩

theorem Copied.copiesMemory {ram : Nat → UInt8} (hstart : np.heapStart = sp.heapStart)
    (hend : np.heapEnd = sp.heapEnd) (hstack : np.eoStack = sp.eoStack)
    (hloads : ∀ va < usertop, Paged.load ⟨s'.vm, ram⟩ new va = Paged.load ⟨s'.vm, ram⟩ as va) :
    CopiesMemory s' ram as new where
  bounds sp' np' hsp' hnp' := by
    rw [hc.old] at hsp'
    rw [hc.copy] at hnp'
    cases hsp'
    cases hnp'
    exact ⟨hstart,hend,hstack⟩
  loads := hloads
  apart ops s₁ hops hrun x y hxy ram₁ va va' b c m₂ hva hva' hstore hload := by
    obtain ⟨own₁,hh₁,hlow₁⟩ := hc.apart_run hlow (fun op hop => (hops op hop).1) hrun
    refine hh₁.store_apart hlow₁ ?_ hva hva' hstore hload
    rcases hxy with ⟨rfl,rfl⟩ | ⟨rfl,rfl⟩
    · exact hc.apart
    · exact hc.apart.symm

end Exact

theorem as_copy_exact_iff {ram : Ram} {entries : Nat → CoremapEntry} {tlb : Nat → TlbEntry}
    {ops : List VmOp} {s : Sys} {as new : Nat} {sp junk : AddrSpace} {vm' : Vm}
    (hram : ram.Accepted) (hops : ∀ op ∈ ops, op.disciplined)
    (hrun : Run.exec vmStep (Sys.boot ram entries tlb) ops = some s)
    (hlow : LowFrames s.vm.coremap) (hsp : s.vm.spaces as = some sp)
    (hjunk : ∀ l1, junk.lvone l1 = none) (hcopy : asCopy junk s.vm sp = (some new, vm'))
    (bytes : Nat → UInt8) :
    CopiesMemory ⟨vm', Function.update s.live new (some .space)⟩ bytes as new ↔
      sp.eoStack = 0 ∧ sp.heapStart = 0 ∧ sp.heapEnd = junk.heapEnd ∧
        ∀ va < usertop, ∀ c, Paged.load ⟨vm', bytes⟩ as va = some c →
          c = 0 ∧ position sp (pageFrame va) ≠ .nowhere ∧ canMap vm' false := by
  obtain ⟨own,hh⟩ := (held_boot hram entries tlb).run hops hrun
  obtain ⟨own',hc⟩ := hh.copied hsp hjunk hcopy
  constructor
  · intro hm
    obtain ⟨hstart,hend,hstack⟩ := hm.bounds sp _ hc.old hc.copy
    exact ⟨hstack.symm,hstart.symm,hend.symm,fun va hva =>
      (hc.loads_iff bytes hstart hend hstack hjunk va).mp (hm.loads va hva)⟩
  · rintro ⟨hstack,hstart,hend,hblank⟩
    exact hc.copiesMemory hlow hstart.symm hend.symm hstack.symm fun va hva =>
      (hc.loads_iff bytes hstart.symm hend.symm hstack.symm hjunk va).mpr (hblank va hva)

def readOnce : Sys × List VmOp :=
  (Sys.boot ⟨0x10000, 0x19000⟩ (fun _ => zeroEntry) tlbInvalid,
    [.asCreate zeroSpace, .vmFault (some 0x80011000) .read 0 0])

theorem load_zeros {vm : Vm} {as va : Nat} {c : UInt8}
    (h : Paged.load ⟨vm, fun _ => 0⟩ as va = some c) : c = 0 := by
  by_cases ht : Touched vm as va
  · obtain ⟨sp,hsp,hpe⟩ := ht
    obtain ⟨pe,hpe⟩ := Option.ne_none_iff_exists'.mp hpe
    simpa [Paged.load,Paged.fault,faultPaddr,hsp,hpe,eq_comm] using h
  · exact load_untouched_zero ht h

theorem as_copy_exact_read_once :
    ∃ s sp vm', Run.exec vmStep readOnce.1 readOnce.2 = some s ∧
      s.vm.spaces 0x80011000 = some sp ∧ (pageEntryOf s.vm sp 0).isSome ∧
      asCopy zeroSpace s.vm sp = (some 0x80015000, vm') ∧
      CopiesMemory ⟨vm', Function.update s.live 0x80015000 (some .space)⟩ (fun _ => 0) 0x80011000
        0x80015000 := by
  have hview : (Run.exec vmStep readOnce.1 readOnce.2).bind (fun s =>
      (s.vm.spaces 0x80011000).map fun sp => ((asCopy zeroSpace s.vm sp).1,
        (s.vm.coremap.freePagesStr, s.vm.coremap.count), (sp.eoStack, sp.heapStart, sp.heapEnd),
        (pageEntryOf s.vm sp 0).isSome, canMap (asCopy zeroSpace s.vm sp).2 false)) =
      some (some 0x80015000, (0x11000, 8), (0, 0, 0), true, true) := by decide +kernel
  obtain ⟨s,hs,hview⟩ := Option.bind_eq_some_iff.mp hview
  obtain ⟨sp,hsp,hview⟩ := Option.map_eq_some_iff.mp hview
  simp only [Prod.mk.injEq] at hview
  obtain ⟨hnew,⟨hstr,hcount⟩,⟨hstack,hstart,hend⟩,hpage,hroom⟩ := hview
  have hd : ∀ op ∈ readOnce.2, op.disciplined := by
    simp [readOnce,VmOp.disciplined,zeroSpace]
  have hlow : LowFrames s.vm.coremap := by
    unfold LowFrames
    rw [hstr,hcount]
    decide
  have hpos (fa : Nat) : position sp fa ≠ .nowhere := by
    have hspent : stackSpent sp = true := by
      unfold stackSpent
      rw [hstack]
      decide
    simp only [position,hspent,if_true]
    split_ifs <;> simp
  refine ⟨s,sp,_,hs,hsp,hpage,Prod.ext hnew rfl,?_⟩
  exact (as_copy_exact_iff ⟨by decide,by decide,by decide,by decide⟩ hd hs hlow hsp
    (fun _ => rfl) (Prod.ext hnew rfl) _).mpr ⟨hstack,hstart,hend,fun va _ c hload =>
      ⟨load_zeros hload,hpos _,hroom⟩⟩

def runningProgram : Sys × List VmOp :=
  (Sys.boot ⟨0x10000, 0x19000⟩ (fun _ => zeroEntry) tlbInvalid,
    [.asCreate zeroSpace, .asDefineRegion 0x80011000 0x400000 0x1000 0,
      .asDefineRegion 0x80011000 0x10000000 0x1000 1, .asDefineStack 0x80011000,
      .vmFault (some 0x80011000) .write 0x7ffff000 0])

theorem as_copy_loses_memory :
    ∃ s sp vm', Run.exec vmStep runningProgram.1 runningProgram.2 = some s ∧
      s.vm.spaces 0x80011000 = some sp ∧ asCopy zeroSpace s.vm sp = (some 0x80015000, vm') ∧
      ∀ bytes, ¬ CopiesMemory ⟨vm', Function.update s.live 0x80015000 (some .space)⟩ bytes
        0x80011000 0x80015000 := by
  have hview : (Run.exec vmStep runningProgram.1 runningProgram.2).bind (fun s =>
      (s.vm.spaces 0x80011000).map fun sp => ((asCopy zeroSpace s.vm sp).1,
        ((asCopy zeroSpace s.vm sp).2.spaces 0x80011000).map AddrSpace.heapStart,
        ((asCopy zeroSpace s.vm sp).2.spaces 0x80015000).map AddrSpace.heapStart)) =
      some (some 0x80015000, some 0x10001000, some 0) := by decide +kernel
  obtain ⟨s,hs,hview⟩ := Option.bind_eq_some_iff.mp hview
  obtain ⟨sp,hsp,hview⟩ := Option.map_eq_some_iff.mp hview
  simp only [Prod.mk.injEq] at hview
  obtain ⟨hnew,hold,hcopy⟩ := hview
  obtain ⟨sp',hsp',hstart⟩ := Option.map_eq_some_iff.mp hold
  obtain ⟨np,hnp,hstart'⟩ := Option.map_eq_some_iff.mp hcopy
  refine ⟨s,sp,_,hs,hsp,Prod.ext hnew rfl,fun bytes hm => ?_⟩
  have heq := (hm.bounds sp' np hsp' hnp).1
  rw [hstart,hstart'] at heq
  exact absurd heq (by decide)

end OS161
