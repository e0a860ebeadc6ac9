import OS161.Lib.Run
import OS161.Vm.Coremap

namespace OS161.Steal

-- `given` lists the calls that did not return 0, newest first: the address and the pages asked for.
structure Loot where
  ram : Ram
  given : List (Nat × Nat)
  deriving DecidableEq, Repr

def start (ram : Ram) : Loot := ⟨ram, []⟩

def next (s : Loot) (npages : Nat) : Loot :=
  let (paddr, ram) := ramStealmem npages s.ram
  ⟨ram, if paddr = 0 then s.given else (paddr, npages) :: s.given⟩

def step (s : Loot) (npages : Nat) : Option Loot := some (next s npages)

def rangeEnd (x : Nat × Nat) : Nat := x.1 + x.2 * pageSize

structure Safe (ram : Ram) (s : Loot) : Prop where
  bounded : s.ram.firstpaddr ≤ s.ram.lastpaddr
  inside : ∀ x ∈ s.given, ram.firstpaddr ≤ x.1 ∧ rangeEnd x ≤ ram.lastpaddr
  disjoint : s.given.Pairwise fun x y => rangeEnd x ≤ y.1 ∨ rangeEnd y ≤ x.1

def StealsSafely (ram : Ram) (s : Loot) (npages : Nat) : Prop :=
  s.ram.firstpaddr ≤ (next s npages).ram.firstpaddr ∧ Safe ram (next s npages)

def Fits (s : Loot) (npages : Nat) : Prop :=
  s.ram.firstpaddr + npages * pageSize < 2 ^ 32 ∨
    s.ram.lastpaddr < (s.ram.firstpaddr + npages * pageSize) % 2 ^ 32

instance (s : Loot) (npages : Nat) : Decidable (Fits s npages) := by
  unfold Fits
  infer_instance

structure Stacked (ram : Ram) (s : Loot) : Prop extends Safe ram s where
  last : s.ram.lastpaddr = ram.lastpaddr
  above : ram.firstpaddr ≤ s.ram.firstpaddr
  below : ∀ x ∈ s.given, rangeEnd x ≤ s.ram.firstpaddr

section
variable {ram : Ram} {s : Loot} {npages : Nat}

theorem u32_bump (first n : Nat) : u32 (first + u32 (n * pageSize)) = (first + n * pageSize) % 2 ^ 32 := by
  unfold u32 pageSize
  omega

theorem next_refused (h : s.ram.lastpaddr < (s.ram.firstpaddr + npages * pageSize) % 2 ^ 32) :
    next s npages = s := by
  unfold next ramStealmem
  dsimp only
  rw [u32_bump,if_pos h]
  rfl

theorem next_taken (h : (s.ram.firstpaddr + npages * pageSize) % 2 ^ 32 ≤ s.ram.lastpaddr)
    (hpos : 0 < s.ram.firstpaddr) :
    next s npages =
      ⟨{ s.ram with firstpaddr := (s.ram.firstpaddr + npages * pageSize) % 2 ^ 32 },
        (s.ram.firstpaddr, npages) :: s.given⟩ := by
  unfold next ramStealmem
  dsimp only
  rw [u32_bump,if_neg (Nat.not_lt.mpr h)]
  exact congrArg (Loot.mk _) (if_neg (Nat.ne_of_gt hpos))

theorem Stacked.start (h : ram.firstpaddr ≤ ram.lastpaddr) : Stacked ram (start ram) where
  bounded := h
  inside := by simp [Steal.start]
  disjoint := List.Pairwise.nil
  last := rfl
  above := Nat.le_refl _
  below := by simp [Steal.start]

theorem Stacked.next (h : Stacked ram s) (hpos : 0 < ram.firstpaddr) (hf : Fits s npages) :
    s.ram.firstpaddr ≤ (Steal.next s npages).ram.firstpaddr ∧ Stacked ram (Steal.next s npages) := by
  have habove := h.above
  rcases Nat.lt_or_ge s.ram.lastpaddr ((s.ram.firstpaddr + npages * pageSize) % 2 ^ 32) with hr | ht
  · rw [next_refused hr]
    exact ⟨Nat.le_refl _,h⟩
  · have hsum : (s.ram.firstpaddr + npages * pageSize) % 2 ^ 32 =
        s.ram.firstpaddr + npages * pageSize :=
      Nat.mod_eq_of_lt (hf.resolve_right (Nat.not_lt.mpr ht))
    rw [next_taken ht (by omega),hsum]
    rw [hsum] at ht
    have hlast := h.last
    refine ⟨Nat.le_add_right _ _,⟨ht,?_,?_⟩,hlast,Nat.le_trans habove (Nat.le_add_right _ _),?_⟩
    · simp only [List.mem_cons,forall_eq_or_imp]
      exact ⟨⟨habove,hlast ▸ ht⟩,h.inside⟩
    · rw [List.pairwise_cons]
      exact ⟨fun y hy => .inr (h.below y hy),h.disjoint⟩
    · simp only [List.mem_cons,forall_eq_or_imp]
      exact ⟨Nat.le_refl _,fun x hx => Nat.le_trans (h.below x hx) (Nat.le_add_right _ _)⟩

theorem Stacked.fits (h : Stacked ram s) (hpos : 0 < ram.firstpaddr) (htop : ram.lastpaddr < 2 ^ 32)
    (hsafe : Safe ram (Steal.next s npages)) : Fits s npages := by
  have habove := h.above
  rcases Nat.lt_or_ge s.ram.lastpaddr ((s.ram.firstpaddr + npages * pageSize) % 2 ^ 32) with hr | ht
  · exact .inr hr
  · have hin := hsafe.inside
    rw [next_taken ht (by omega)] at hin
    have hend : s.ram.firstpaddr + npages * pageSize ≤ ram.lastpaddr := (hin _ List.mem_cons_self).2
    exact .inl (Nat.lt_of_le_of_lt hend htop)

end

theorem steals_safely_iff {ram : Ram} (hram : ram.Accepted) (hpos : 0 < ram.firstpaddr)
    (calls : List Nat) :
    Run.Along step (StealsSafely ram) (start ram) calls ↔ Run.Along step Fits (start ram) calls := by
  have htop : ram.lastpaddr < 2 ^ 32 := Nat.lt_of_le_of_lt hram.top (by decide)
  have hstart : Stacked ram (start ram) := .start hram.ordered
  have hnext : ∀ s npages t, Stacked ram s → Fits s npages → step s npages = some t →
      Stacked ram t := by
    intro s npages t hs hf ht
    cases ht
    exact (hs.next hpos hf).2
  constructor
  · refine Run.along_imp (fun s npages t hs hp ht => ?_) (fun s npages hs hp => ?_) hstart
    · exact hnext s npages t hs (hs.fits hpos htop hp.2) ht
    · exact hs.fits hpos htop hp.2
  · refine Run.along_imp hnext (fun s npages hs hf => ?_) hstart
    exact ⟨(hs.next hpos hf).1,(hs.next hpos hf).2.toSafe⟩

def bootRam : Ram := ⟨0x10000, 0x20000⟩

theorem bootRam_accepted : bootRam.Accepted := ⟨rfl,rfl,by decide,by decide⟩

theorem steals_safely_boot : Run.Along step (StealsSafely bootRam) (start bootRam) [1, 0, 4, 100, 2] := by
  have hcheck := @Run.along_of_check _ _ step (fun s npages => decide (Fits s npages))
    (start bootRam) [1,0,4,100,2] (by decide +kernel)
  have hfits : Run.Along step Fits (start bootRam) [1,0,4,100,2] :=
    Run.along_mono (fun _ _ h => of_decide_eq_true h) hcheck
  exact (steals_safely_iff bootRam_accepted (by decide) _).mpr hfits

theorem steal_wraps_below_start :
    next (start bootRam) (2 ^ 20 - 1) = ⟨⟨0xf000, 0x20000⟩, [(0x10000, 2 ^ 20 - 1)]⟩ ∧
      ¬ StealsSafely bootRam (start bootRam) (2 ^ 20 - 1) := by
  have hnext : next (start bootRam) (2 ^ 20 - 1) =
      ⟨⟨0xf000,0x20000⟩,[(0x10000, 2 ^ 20 - 1)]⟩ := by decide +kernel
  refine ⟨hnext,fun h => ?_⟩
  have hle := h.1
  rw [hnext] at hle
  exact absurd hle (by decide)

end OS161.Steal
