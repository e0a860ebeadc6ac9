import OS161.Dev.Lhd
import Mathlib.Data.List.Range

namespace OS161

abbrev IoResult := Kern (Option Errno × Lhd × Uio)

-- `lhdIo` with the values written to LHD_REG_SECT, in order.
structure Logged where
  sects : List Nat
  result : IoResult

def Logged.done (result : IoResult) : Logged := ⟨[], result⟩

def Logged.wreg (sect : Nat) (rest : Logged) : Logged := ⟨sect :: rest.sects, rest.result⟩

section
variable (cur : Curthread)

def lhdIoLoopLogged (sector : Nat) : Nat → Nat → Lhd → Uio → Logged
  | 0, _, lh, uio => .done (.ok (none, lh, uio))
  | k + 1, i, lh, uio =>
    match uio.rw with
    | .write =>
      match uiomove cur lh.buf.toMem sectsize uio with
      | .error e => .done (.error e)
      | .ok (some e, _, uio) => .done (.ok (some e, lh, uio))
      | .ok (none, ptr, uio) =>
        .wreg (u32 (sector + i)) <|
          match lhdOp { lh with buf := Block.ofMem ptr } (u32 (sector + i)) .write with
          | .error e => .done (.error e)
          | .ok (some e, lh) => .done (.ok (some e, lh, uio))
          | .ok (none, lh) => lhdIoLoopLogged sector k (i + 1) lh uio
    | .read =>
      .wreg (u32 (sector + i)) <|
        match lhdOp lh (u32 (sector + i)) .read with
        | .error e => .done (.error e)
        | .ok (some e, lh) => .done (.ok (some e, lh, uio))
        | .ok (none, lh) =>
          match uiomove cur lh.buf.toMem sectsize uio with
          | .error e => .done (.error e)
          | .ok (some e, _, uio) => .done (.ok (some e, lh, uio))
          | .ok (none, _, uio) => lhdIoLoopLogged sector k (i + 1) lh uio

def lhdIoLogged (lh : Lhd) (uio : Uio) : Logged :=
  let sector := ioSector uio.offset
  let sectoff := u32 (uio.offset.tmod 512)
  let len := uio.resid / sectsize
  let lenoff := uio.resid % sectsize
  if sectoff ≠ 0 ∨ lenoff ≠ 0 then .done (.ok (some .einval, lh, uio))
  else if lhdRefuses lh.dBlocks sector len then .done (.ok (some .einval, lh, uio))
  else lhdIoLoopLogged cur sector len 0 lh uio

end

def Logged.Succeeds (g : Logged) : Prop := ∃ lh uio, g.result = .ok (none, lh, uio)

section
variable {cur : Curthread} {sector k i : Nat} {lh : Lhd} {uio : Uio}

structure InOrder (sector i k : Nat) (g : Logged) : Prop where
  order : ∃ m ≤ k, g.sects = (List.range' i m).map (fun j : Nat => u32 ((sector : Int) + j)) ∧
    (g.Succeeds → m = k)

theorem InOrder.stop {result : IoResult} (h : ¬ (Logged.done result).Succeeds) :
    InOrder sector i k (.done result) :=
  ⟨0,Nat.zero_le _,rfl,fun hs => absurd hs h⟩

theorem InOrder.error (e : Stop) : InOrder sector i k (.done (.error e)) :=
  .stop (by rintro ⟨lh,uio,h⟩; cases h)

theorem InOrder.failed (e : Errno) (lh : Lhd) (uio : Uio) :
    InOrder sector i k (.done (.ok (some e, lh, uio))) :=
  .stop (by rintro ⟨lh,uio,h⟩; cases h)

theorem InOrder.wreg {g : Logged} (h : InOrder sector (i + 1) k g) :
    InOrder sector i (k + 1) (.wreg (u32 (sector + i)) g) := by
  obtain ⟨m,hm,hsects,hall⟩ := h
  refine ⟨m + 1,Nat.succ_le_succ hm,?_,fun hs => congrArg (· + 1) (hall hs)⟩
  rw [Logged.wreg,hsects,List.range'_succ,List.map_cons]

theorem lhdIoLoopLogged_spec (k i : Nat) (lh : Lhd) (uio : Uio) :
    (lhdIoLoopLogged cur sector k i lh uio).result = lhdIoLoop cur sector k i lh uio ∧
      InOrder sector i k (lhdIoLoopLogged cur sector k i lh uio) := by
  induction k generalizing i lh uio with
  | zero => exact ⟨rfl,0,Nat.le_refl _,rfl,fun _ => rfl⟩
  | succ k ih =>
    rw [lhdIoLoopLogged,lhdIoLoop]
    cases uio.rw with
    | write =>
      cases uiomove cur lh.buf.toMem sectsize uio with
      | error e => exact ⟨rfl,.error e⟩
      | ok moved =>
        obtain ⟨_ | e,ptr,uio₁⟩ := moved
        · rw [ok_bind]
          refine And.imp id InOrder.wreg ?_
          dsimp only [Logged.wreg]
          cases lhdOp { lh with buf := Block.ofMem ptr } (u32 (sector + i)) .write with
          | error e => exact ⟨rfl,.error e⟩
          | ok op =>
            obtain ⟨_ | e,lh₁⟩ := op
            · exact ih (i + 1) lh₁ uio₁
            · exact ⟨rfl,.failed e lh₁ uio₁⟩
        · exact ⟨rfl,.failed e lh uio₁⟩
    | read =>
      refine And.imp id InOrder.wreg ?_
      cases lhdOp lh (u32 (sector + i)) .read with
      | error e => exact ⟨rfl,.error e⟩
      | ok op =>
        obtain ⟨_ | e,lh₁⟩ := op
        · rw [ok_bind]
          dsimp only
          cases uiomove cur lh₁.buf.toMem sectsize uio with
          | error e => exact ⟨rfl,.error e⟩
          | ok moved =>
            obtain ⟨_ | e,ptr,uio₁⟩ := moved
            · exact ih (i + 1) lh₁ uio₁
            · exact ⟨rfl,.failed e lh₁ uio₁⟩
        · exact ⟨rfl,.failed e lh₁ uio⟩

theorem lhdIoLogged_result (lh : Lhd) (uio : Uio) :
    (lhdIoLogged cur lh uio).result = lhdIo cur lh uio := by
  unfold lhdIoLogged lhdIo
  dsimp only
  split
  · rfl
  · split
    · rfl
    · exact (lhdIoLoopLogged_spec _ _ _ _).1

end

def lhdRejects (lh : Lhd) (uio : Uio) : Prop :=
  u32 (uio.offset.tmod 512) ≠ 0 ∨ uio.resid % sectsize ≠ 0 ∨
    lhdRefuses lh.dBlocks (ioSector uio.offset) (uio.resid / sectsize)

instance (lh : Lhd) (uio : Uio) : Decidable (lhdRejects lh uio) := by
  unfold lhdRejects
  infer_instance

def FirstCopyFails (cur : Curthread) (lh : Lhd) (uio : Uio) : Prop :=
  uio.rw = .write ∧ ∀ ptr uio', uiomove cur lh.buf.toMem sectsize uio ≠ .ok (none, ptr, uio')

def Rejected (lh : Lhd) (uio : Uio) (g : Logged) : Prop := g = ⟨[], .ok (some .einval, lh, uio)⟩

structure OnDisk (lh : Lhd) (uio : Uio) (g : Logged) : Prop where
  inside : ∀ sect ∈ g.sects, sect < lh.dBlocks
  order : ∃ m, g.sects.map Int.ofNat = (List.range m).map (fun j => uio.offset / 512 + Int.ofNat j) ∧
    (g.Succeeds → m = uio.resid / 512)

section Bounds
variable {cur : Curthread} {lh : Lhd} {uio : Uio}

theorem lhdIoLogged_rejected (h : lhdRejects lh uio) : Rejected lh uio (lhdIoLogged cur lh uio) := by
  unfold lhdIoLogged Rejected
  by_cases halign : u32 (uio.offset.tmod 512) ≠ 0 ∨ uio.resid % sectsize ≠ 0
  · rw [if_pos halign]
    rfl
  · have hbig : lhdRefuses lh.dBlocks (ioSector uio.offset) (uio.resid / sectsize) = true := by
      rcases h with h | h | h
      · exact absurd (.inl h) halign
      · exact absurd (.inr h) halign
      · exact h
    rw [if_neg halign,if_pos hbig]
    rfl

theorem lhdIoLogged_accepted (h : ¬ lhdRejects lh uio) :
    lhdIoLogged cur lh uio =
      lhdIoLoopLogged cur (ioSector uio.offset) (uio.resid / 512) 0 lh uio := by
  unfold lhdRejects at h
  rw [← or_assoc,not_or] at h
  unfold lhdIoLogged
  rw [if_neg h.1,if_neg h.2]
  rfl

theorem sector_of_nonneg (h0 : 0 ≤ uio.offset) (hhigh : uio.offset < 2 ^ 31) :
    (ioSector uio.offset : Int) = uio.offset / 512 := by
  unfold ioSector u32
  rw [Int.tdiv_eq_ediv_of_nonneg h0]
  omega

theorem accepted_sum (hres : uio.resid < 2 ^ 32) (h0 : 0 ≤ uio.offset)
    (hhigh : uio.offset < 2 ^ 31) (h : ¬ lhdRejects lh uio) :
    ioSector uio.offset + uio.resid / 512 < 2 ^ 32 ∧
      ioSector uio.offset + uio.resid / 512 ≤ lh.dBlocks := by
  have hsec := @sector_of_nonneg uio h0 hhigh
  have hlow : ioSector uio.offset + uio.resid / 512 < 2 ^ 32 := by omega
  have hle : ¬ lhdRefuses lh.dBlocks (ioSector uio.offset) (uio.resid / 512) = true :=
    fun hr => h (.inr (.inr hr))
  unfold lhdRefuses at hle
  rw [decide_eq_true_eq,← Int.natCast_add,u32_of_nat hlow,Nat.not_lt] at hle
  exact ⟨hlow,hle⟩

theorem onDisk_of_nonneg (hres : uio.resid < 2 ^ 32) (h0 : 0 ≤ uio.offset)
    (hhigh : uio.offset < 2 ^ 31) (h : ¬ lhdRejects lh uio) :
    OnDisk lh uio (lhdIoLogged cur lh uio) := by
  obtain ⟨hlow,hle⟩ := accepted_sum hres h0 hhigh h
  have hsec := @sector_of_nonneg uio h0 hhigh
  rw [lhdIoLogged_accepted h]
  obtain ⟨m,hm,hsects,hall⟩ :=
    (@lhdIoLoopLogged_spec cur (ioSector uio.offset) (uio.resid / 512) 0 lh uio).2.order
  have hexact : ∀ j < m, u32 ((ioSector uio.offset : Int) + j) = ioSector uio.offset + j := by
    intro j hj
    rw [← Int.natCast_add,u32_of_nat (by omega)]
  refine ⟨fun sect hsect => ?_,m,?_,hall⟩
  · rw [hsects,List.mem_map] at hsect
    obtain ⟨j,hj,rfl⟩ := hsect
    rw [List.mem_range'_1] at hj
    rw [hexact j (by omega)]
    omega
  · rw [hsects,List.map_map,← List.range_eq_range']
    refine List.map_congr_left fun j hj => ?_
    rw [List.mem_range] at hj
    simp only [Function.comp_apply,Int.ofNat_eq_natCast]
    rw [hexact j hj,Int.natCast_add,hsec]

theorem lhdIoLoopLogged_head (sector : Nat) {k : Nat} (hk : 0 < k) (h : ¬ FirstCopyFails cur lh uio) :
    ∃ rest, (lhdIoLoopLogged cur sector k 0 lh uio).sects = u32 (sector + (0 : Nat)) :: rest := by
  obtain ⟨k,rfl⟩ := Nat.exists_eq_succ_of_ne_zero (Nat.ne_of_gt hk)
  rw [lhdIoLoopLogged]
  unfold FirstCopyFails at h
  cases hrw : uio.rw with
  | read => exact ⟨_,rfl⟩
  | write =>
    simp only [hrw,true_and,not_forall,not_not] at h
    obtain ⟨ptr,uio₁,hmove⟩ := h
    rw [hmove]
    exact ⟨_,rfl⟩

theorem onDisk_of_empty (h : (lhdIoLogged cur lh uio).sects = [])
    (hlen : (lhdIoLogged cur lh uio).Succeeds → uio.resid / 512 = 0) :
    OnDisk lh uio (lhdIoLogged cur lh uio) := by
  refine ⟨fun sect hs => ?_,0,?_,fun hs => (hlen hs).symm⟩
  · rw [h] at hs
    cases hs
  · rw [h]
    rfl

theorem onDisk_of_no_sector (h : ¬ lhdRejects lh uio) (hlen : uio.resid / 512 = 0) :
    OnDisk lh uio (lhdIoLogged cur lh uio) := by
  refine onDisk_of_empty ?_ fun _ => hlen
  rw [lhdIoLogged_accepted h,hlen]
  rfl

theorem onDisk_of_first_copy (h : ¬ lhdRejects lh uio) (hf : FirstCopyFails cur lh uio) :
    OnDisk lh uio (lhdIoLogged cur lh uio) := by
  rcases Nat.eq_zero_or_pos (uio.resid / 512) with hlen | hlen
  · exact onDisk_of_no_sector h hlen
  · have hrun : ∃ result, lhdIoLogged cur lh uio = .done result ∧
        ¬ (Logged.done result).Succeeds := by
      obtain ⟨k,hk⟩ := Nat.exists_eq_succ_of_ne_zero (Nat.ne_of_gt hlen)
      obtain ⟨hrw,hfail⟩ := hf
      rw [lhdIoLogged_accepted h,hk,lhdIoLoopLogged,hrw]
      cases hm : uiomove cur lh.buf.toMem sectsize uio with
      | error e => exact ⟨_,rfl,by rintro ⟨lh,uio,h⟩; cases h⟩
      | ok moved =>
        obtain ⟨_ | e,ptr,uio₁⟩ := moved
        · exact absurd hm (hfail ptr uio₁)
        · exact ⟨_,rfl,by rintro ⟨lh,uio,h⟩; cases h⟩
    obtain ⟨result,heq,hno⟩ := hrun
    refine onDisk_of_empty ?_ fun hs => ?_
    · rw [heq]
      rfl
    · rw [heq] at hs
      exact absurd hs hno

theorem not_onDisk_of_neg (hneg : uio.offset < 0) (h : ¬ lhdRejects lh uio)
    (hlen : 0 < uio.resid / 512) (hf : ¬ FirstCopyFails cur lh uio) :
    ¬ OnDisk lh uio (lhdIoLogged cur lh uio) := by
  rintro ⟨-,m,hmap,-⟩
  obtain ⟨rest,hsects⟩ := lhdIoLoopLogged_head (ioSector uio.offset) hlen hf
  rw [lhdIoLogged_accepted h,hsects,List.map_cons] at hmap
  cases m with
  | zero => cases hmap
  | succ m =>
    rw [List.range_succ_eq_map,List.map_cons,List.cons.injEq] at hmap
    have hhead := hmap.1
    simp only [Int.ofNat_eq_natCast] at hhead
    omega

theorem not_rejected (h : ¬ lhdRejects lh uio) (hlen : 0 < uio.resid / 512)
    (hf : ¬ FirstCopyFails cur lh uio) : ¬ Rejected lh uio (lhdIoLogged cur lh uio) := by
  intro hr
  obtain ⟨rest,hsects⟩ := lhdIoLoopLogged_head (ioSector uio.offset) hlen hf
  rw [lhdIoLogged_accepted h] at hr
  rw [hr] at hsects
  cases hsects

end Bounds

theorem lhd_io_stays_on_disk_iff {cur : Curthread} {lh : Lhd} {uio : Uio}
    (hhigh : uio.offset < 2 ^ 31) (hres : uio.resid < 2 ^ 32) :
    (lhdIoLogged cur lh uio).result = lhdIo cur lh uio ∧
      (Rejected lh uio (lhdIoLogged cur lh uio) ∨ OnDisk lh uio (lhdIoLogged cur lh uio) ↔
        0 ≤ uio.offset ∨ lhdRejects lh uio ∨ uio.resid < 512 ∨ FirstCopyFails cur lh uio) := by
  refine ⟨lhdIoLogged_result lh uio,?_⟩
  by_cases hr : lhdRejects lh uio
  · exact iff_of_true (.inl (lhdIoLogged_rejected hr)) (.inr (.inl hr))
  by_cases h0 : 0 ≤ uio.offset
  · exact iff_of_true (.inr (onDisk_of_nonneg hres h0 hhigh hr)) (.inl h0)
  by_cases hlen : uio.resid < 512
  · exact iff_of_true (.inr (onDisk_of_no_sector hr (by omega))) (.inr (.inr (.inl hlen)))
  by_cases hf : FirstCopyFails cur lh uio
  · exact iff_of_true (.inr (onDisk_of_first_copy hr hf)) (.inr (.inr (.inr hf)))
  · have hpos : 0 < uio.resid / 512 := by omega
    refine iff_of_false ?_ ?_
    · rintro (h | h)
      · exact not_rejected hr hpos hf h
      · exact not_onDisk_of_neg (by omega) hr hpos hf h
    · rintro (h | h | h | h)
      · exact h0 h
      · exact hr h
      · exact hlen h
      · exact hf h


def asksBefore : Uio := mkKuio zeros 512 (-512) .write

def asksFirst : Uio := mkKuio zeros 1024 0 .write

def smallDisk : Lhd := ⟨fun _ _ => 0, fun _ => 0, 16, [4, 4]⟩

theorem lhd_io_stays_on_disk_first :
    ¬ lhdRejects smallDisk asksFirst ∧
      (Rejected smallDisk asksFirst (lhdIoLogged ⟨none, fun _ _ => none⟩ smallDisk asksFirst) ∨
        OnDisk smallDisk asksFirst (lhdIoLogged ⟨none, fun _ _ => none⟩ smallDisk asksFirst)) :=
  ⟨by decide +kernel,
    (lhd_io_stays_on_disk_iff (by decide) (by decide)).2.mpr (.inl (by decide))⟩

theorem lhd_io_writes_past_last_sector :
    (lhdIoLogged ⟨none, fun _ _ => none⟩ smallDisk asksBefore).sects = [2 ^ 32 - 1] ∧
      smallDisk.dBlocks = 16 := by
  decide +kernel

end OS161
