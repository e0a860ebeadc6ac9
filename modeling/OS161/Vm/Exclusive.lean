import OS161.Vm.Ownership

namespace OS161

open Holding

def Owns (s : Sys) : Owner → Nat → Prop
  | .kernel a, i =>
    s.live a ≠ none ∧ kpageIndex s.vm.coremap a ≤ i ∧
      (i : Int) < kpageIndex s.vm.coremap a +
        (s.vm.coremap.entries (kpageIndex s.vm.coremap a)).continuous
  | .page as l1 l2, i =>
    ∃ t, s.vm.tableAt as l1 = some t ∧ l2 < level2Size ∧
      (s.vm.tables t l2).valid = true ∧ (s.vm.tables t l2).coremapPtr = some i

structure FrameExclusive (s : Sys) : Prop where
  allocated : ∀ i < s.vm.coremap.count,
    (s.vm.coremap.entries i).allocated = 1 ↔ ∃! o, Owns s o i
  exclusive : ∀ {o o' i}, Owns s o i → Owns s o' i → o = o'
  managed : ∀ {o i}, Owns s o i → i < s.vm.coremap.count
  linked : ∀ {as l1 l2 i}, Owns s (.page as l1 l2) i →
    (s.vm.coremap.entries i).as = some as ∧
      ∃ t, s.vm.tableAt as l1 = some t ∧ (s.vm.coremap.entries i).pe = some (t, l2)

section
variable {s : Sys} {own : Nat → Option Owner} (hh : Held s own)
include hh

theorem Held.owns_kernel (a i : Nat) : Owns s (.kernel a) i ↔ own i = some (.kernel a) := by
  constructor
  · rintro ⟨hlive,hle,hlt⟩
    obtain ⟨k,hk⟩ := Option.ne_none_iff_exists'.mp hlive
    obtain ⟨h,n,haddr,hn,hle',hcont,hrun⟩ := hh.ledger.run hk
    have hidx : kpageIndex s.vm.coremap a = h := by
      rw [haddr]
      exact Coremap.kpageIndex_kvaddr hh.ledger.sane (by omega)
    rw [hidx] at hle hlt
    rw [hcont] at hlt
    exact (hrun i).mpr (by omega)
  · intro ho
    have hlive := hh.ledger.kern ho
    obtain ⟨k,hk⟩ := Option.ne_none_iff_exists'.mp hlive
    obtain ⟨h,n,haddr,hn,hle',hcont,hrun⟩ := hh.ledger.run hk
    have hidx : kpageIndex s.vm.coremap a = h := by
      rw [haddr]
      exact Coremap.kpageIndex_kvaddr hh.ledger.sane (by omega)
    have hi := (hrun i).mp ho
    refine ⟨hlive,?_,?_⟩
    · rw [hidx]
      omega
    · rw [hidx,hcont]
      omega

theorem Held.owns_page (as l1 l2 i : Nat) :
    Owns s (.page as l1 l2) i ↔ own i = some (.page as l1 l2) := by
  constructor
  · rintro ⟨t,ht,hl,-,hc⟩
    exact hh.mapped.entry ht hl hc
  · intro ho
    obtain ⟨t,ht,hl,hpe,-⟩ := hh.mapped.page ho
    exact ⟨t,ht,hl,by rw [hpe],by rw [hpe]⟩

theorem Held.represents : Represents own (Owns s)
  | .kernel a, i => hh.owns_kernel a i
  | .page as l1 l2, i => hh.owns_page as l1 l2 i

theorem Held.frameExclusive (ht : Tight s.vm.coremap own) : FrameExclusive s where
  allocated i hi := by
    rw [hh.represents.existsUnique_iff]
    refine ⟨ht i hi trivial,fun hn => ?_⟩
    obtain ⟨o,ho⟩ := Option.ne_none_iff_exists'.mp hn
    exact (hh.ledger.bound ho).2
  exclusive := hh.represents.unique
  managed ho := (hh.ledger.bound ((hh.represents _ _).mp ho)).1
  linked ho := by
    obtain ⟨t,ht,-,-,has,hpe⟩ := hh.mapped.page ((hh.represents _ _).mp ho)
    exact ⟨has,t,ht,hpe⟩

end

theorem frames_exclusive_along {ram : Ram} {entries : Nat → CoremapEntry} {tlb : Nat → TlbEntry}
    {ops : List VmOp} {s : Sys} (hram : ram.Accepted)
    (hfree : ∀ i, (entries i).allocated = 0)
    (hops : Run.Along vmStep (fun s op => op.disciplined ∧ tableFits s op = true)
      (Sys.boot ram entries tlb) ops)
    (hrun : Run.exec vmStep (Sys.boot ram entries tlb) ops = some s) : FrameExclusive s := by
  have hinv : ∃ own, Held s own ∧ Tight s.vm.coremap own := by
    refine Run.invariant (I := fun s => ∃ own, Held s own ∧ Tight s.vm.coremap own) ?_ ?_ hops hrun
    · rintro s op t ⟨own,hh,ht⟩ ⟨hd,hfits⟩ hstep
      obtain ⟨own',he⟩ := hh.step hd hstep
      exact ⟨own',he.held,he.tight hfits ht⟩
    · refine ⟨fun _ => none,held_boot hram entries tlb,fun i _ _ hall => ?_⟩
      have hzero : (entries i).allocated = 1 := hall
      rw [hfree i] at hzero
      cases hzero
  obtain ⟨own,hh,ht⟩ := hinv
  exact hh.frameExclusive ht

def zeroEntry : CoremapEntry := ⟨0, 0, none, none⟩

def zeroSpace : AddrSpace := ⟨none, 0, 0, 0, 0, 0, 0, 0, fun _ => none⟩

def firstFault (ram : Ram) : Sys × List VmOp :=
  (Sys.boot ram (fun _ => zeroEntry) tlbInvalid,
    [.asCreate zeroSpace, .asDefineStack 0x80011000,
      .vmFault (some 0x80011000) .write 0x7ffff000 0])

theorem firstFault_disciplined (ram : Ram) : ∀ op ∈ (firstFault ram).2, op.disciplined := by
  simp [firstFault,VmOp.disciplined,zeroSpace]

theorem frames_exclusive_after_first_fault :
    ∃ s, Run.exec vmStep (firstFault ⟨0x10000, 0x19000⟩).1 (firstFault ⟨0x10000, 0x19000⟩).2 =
      some s ∧ FrameExclusive s := by
  have hsome : (Run.exec vmStep (firstFault ⟨0x10000,0x19000⟩).1
      (firstFault ⟨0x10000,0x19000⟩).2).isSome = true := by decide +kernel
  obtain ⟨s,hs⟩ := Option.isSome_iff_exists.mp hsome
  refine ⟨s,hs,frames_exclusive_along ⟨by decide,by decide,by decide,by decide⟩
    (fun _ => rfl) (Run.along_and (Run.along_of_forall (firstFault_disciplined _))
      (Run.along_of_check (by decide +kernel))) hs⟩

theorem Held.unowned {s : Sys} {own : Nat → Option Owner} (hh : Held s own) {i : Nat}
    (has : (s.vm.coremap.entries i).as = none)
    (hcont : ∀ h ≤ i, (s.vm.coremap.entries h).continuous ≤ i - h) : own i = none := by
  cases ho : own i with
  | none => rfl
  | some o =>
    cases o with
    | kernel a =>
      obtain ⟨k,hk⟩ := Option.ne_none_iff_exists'.mp (hh.ledger.kern ho)
      obtain ⟨h,n,-,-,-,hn,hrun⟩ := hh.ledger.run hk
      have hi := (hrun i).mp ho
      have := hcont h hi.1
      omega
    | page as l1 l2 =>
      obtain ⟨t,-,-,-,has',-⟩ := hh.mapped.page ho
      rw [has] at has'
      cases has'

theorem table_failure_leaks_frame :
    ∃ s, Run.exec vmStep (firstFault ⟨0x10000, 0x14000⟩).1 (firstFault ⟨0x10000, 0x14000⟩).2 =
      some s ∧ ¬ FrameExclusive s := by
  have hsome : (Run.exec vmStep (firstFault ⟨0x10000,0x14000⟩).1
      (firstFault ⟨0x10000,0x14000⟩).2).map (fun s => (s.vm.coremap.count,
        s.vm.coremap.entries 0, s.vm.coremap.entries 1)) =
      some (3, ⟨1,1,none,none⟩, ⟨1,0,none,none⟩) := by decide +kernel
  obtain ⟨s,hs,hview⟩ := Option.map_eq_some_iff.mp hsome
  obtain ⟨hcount,h0,h1⟩ : s.vm.coremap.count = 3 ∧ s.vm.coremap.entries 0 = ⟨1,1,none,none⟩ ∧
      s.vm.coremap.entries 1 = ⟨1,0,none,none⟩ := by simpa using hview
  refine ⟨s,hs,fun hex => ?_⟩
  obtain ⟨own,hh⟩ := (held_boot ⟨by decide,by decide,by decide,by decide⟩ _ _).run
    (firstFault_disciplined _) hs
  have hnone : own 1 = none := by
    refine hh.unowned (by rw [h1]) fun h hle => ?_
    obtain rfl | rfl : h = 0 ∨ h = 1 := by omega
    · rw [h0]; decide
    · rw [h1]; decide
  exact hh.represents.existsUnique_iff.mp ((hex.allocated 1 (by omega)).mp (by rw [h1])) hnone

end OS161
