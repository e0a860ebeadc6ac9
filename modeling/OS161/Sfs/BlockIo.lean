import OS161.Dev.Lhd

namespace OS161

open Function

def sfsRwblockRetry {D : Type} (dIo : D → Uio → Kern (Option Errno × D × Uio)) :
    Nat → D → Uio → Kern (Option Errno × D × Uio)
  | retries, d, uio => do
    match ← dIo d uio with
    | (some .einval, _, _) => .error (.panic "sfs: d_io returned EINVAL")
    | (some .eio, d, uio) =>
      match retries with
      | 0 => .ok (some .eio, d, uio)
      | retries + 1 => sfsRwblockRetry dIo retries d uio
    | (result, d, uio) => .ok (result, d, uio)

section
variable (cur : Curthread)

def sfsRwblock (lh : Lhd) (uio : Uio) : Kern (Option Errno × Lhd × Uio) :=
  sfsRwblockRetry (lhdIo cur) 10 lh uio

def sfsUio (data : Mem) (block : Nat) (rw : UioRw) : Uio :=
  mkKuio data 512 (offT (offT block * 512)) rw

def sfsRblock (lh : Lhd) (block : Nat) : Kern (Option Errno × Block × Lhd) := do
  let (result, lh, uio) ← sfsRwblock cur lh (sfsUio zeros block .read)
  .ok (result, Block.ofMem uio.iovBuf, lh)

def sfsWblock (lh : Lhd) (data : Block) (block : Nat) : Kern (Option Errno × Lhd) := do
  let (result, lh, _) ← sfsRwblock cur lh (sfsUio data.toMem block .write)
  .ok (result, lh)

end

def sfsSector (block : Nat) : Nat := ioSector (offT (offT block * 512))

def sfsNextSector (block : Nat) : Nat := ioSector (offT (offT (offT block * 512) + 512))

section Write
variable {cur : Curthread}

theorem offT_dvd (y : Int) : (512 : Int) ∣ offT (y * 512) := by
  unfold offT
  rw [Int.bmod_def]
  split <;> omega

theorem offT_next_dvd (y : Int) : (512 : Int) ∣ offT (offT (y * 512) + 512) := by
  have h := offT_dvd y
  obtain ⟨k,hk⟩ := h
  have hk' : offT (y * 512) + 512 = (k + 1) * 512 := by omega
  rw [hk']
  exact offT_dvd _

theorem u32_tmod_of_dvd {x : Int} (h : (512 : Int) ∣ x) : u32 (x.tmod 512) = 0 := by
  rw [Int.tmod_eq_zero_of_dvd h]
  rfl

theorem ioSector_wraps (offset : Int) : u32 (ioSector offset + (0 : Nat)) = ioSector offset := by
  have h : ioSector offset < 2 ^ 32 := u32_lt _
  simpa using u32_of_nat h

theorem memmove_block (b : Block) (m : Mem) :
    Block.ofMem (memmove m 0 b.toMem 0 512) = b := by
  funext i
  simp [Block.ofMem,memmove,Block.toMem]

variable (cur) in
theorem lhdIo_first_write (lh : Lhd) (data : Block) (block : Nat) :
    lhdIo cur lh (sfsUio data.toMem block .write) =
      let uio := sfsUio data.toMem block .write
      if lhdRefuses lh.dBlocks (sfsSector block) 1 then .ok (some .einval, lh, uio)
      else match lhdDone lh.irqs with
        | none => .error .asleep
        | some (some e, irqs) =>
          .ok (some e, { lh with buf := data, irqs := irqs }, uio.advance 512)
        | some (none, irqs) =>
          .ok (none, { lh with
            disk := update lh.disk (sfsSector block) data
            buf := data, irqs := irqs }, uio.advance 512) := by
  have hoff : u32 ((offT (offT block * 512)).tmod 512) = 0 := u32_tmod_of_dvd (offT_dvd _)
  have hready : (sfsUio data.toMem block .write).ready cur := rfl
  have hmove := uiomove_write (n := 512) hready rfl lh.buf.toMem (by omega) (Nat.le_refl _)
    (Nat.le_refl _)
  have hsec := ioSector_wraps (offT (offT block * 512))
  simp only [lhdIo,sfsUio,mkKuio,hoff,sectsize,Nat.mod_self,lhdIoLoop,sfsSector]
    at hmove ⊢
  rw [hmove]
  simp only [memmove_block,bind,Except.bind,lhdOp,hsec]
  by_cases hr : lhdRefuses lh.dBlocks (ioSector (offT (offT block * 512))) 1
  · simp [hr]
  · cases hd : lhdDone lh.irqs with
    | none => simp [hr]
    | some r =>
      obtain ⟨r,irqs⟩ := r
      cases r <;> simp [hr]

variable (cur) in
theorem lhdIo_consumed (lh : Lhd) (data : Block) (block : Nat) :
    let uio := (sfsUio data.toMem block .write).advance 512
    lhdIo cur lh uio =
      if lhdRefuses lh.dBlocks (sfsNextSector block) 0 then .ok (some .einval, lh, uio)
      else .ok (none, lh, uio) := by
  have hoff := u32_tmod_of_dvd (offT_next_dvd (offT block))
  simp [lhdIo,sfsUio,mkKuio,Uio.advance,hoff,lhdIoLoop,sfsNextSector]

section Retry
variable {lh lh' : Lhd} {uio uio' : Uio} {retries : Nat}

theorem retry_asleep (h : lhdIo cur lh uio = .error .asleep) :
    sfsRwblockRetry (lhdIo cur) retries lh uio = .error .asleep := by
  rw [sfsRwblockRetry,h]
  rfl

theorem retry_einval (h : lhdIo cur lh uio = .ok (some .einval, lh', uio')) :
    sfsRwblockRetry (lhdIo cur) retries lh uio = .error (.panic "sfs: d_io returned EINVAL") := by
  rw [sfsRwblockRetry,h]
  rfl

theorem retry_eio (h : lhdIo cur lh uio = .ok (some .eio, lh', uio')) :
    sfsRwblockRetry (lhdIo cur) (retries + 1) lh uio = sfsRwblockRetry (lhdIo cur) retries lh' uio' := by
  rw [sfsRwblockRetry,h]
  rfl

theorem retry_done {result : Option Errno} (h : lhdIo cur lh uio = .ok (result, lh', uio'))
    (hi : result ≠ some .einval) (he : result ≠ some .eio) :
    sfsRwblockRetry (lhdIo cur) retries lh uio = .ok (result, lh', uio') := by
  rw [sfsRwblockRetry,h]
  cases result with
  | none => rfl
  | some e => cases e <;> first | rfl | contradiction

end Retry

theorem wblock_of_retry {lh : Lhd} {data : Block} {block : Nat}
    {out : Kern (Option Errno × Lhd × Uio)}
    (h : sfsRwblockRetry (lhdIo cur) 10 lh (sfsUio data.toMem block .write) = out) :
    sfsWblock cur lh data block = out.map (fun r => (r.1, r.2.1)) := by
  rw [sfsWblock,sfsRwblock,h]
  cases out <;> rfl

theorem wblock_refused {lh : Lhd} {data : Block} {block : Nat}
    (hr : lhdRefuses lh.dBlocks (sfsSector block) 1 = true) :
    sfsWblock cur lh data block = .error (.panic "sfs: d_io returned EINVAL") := by
  have hio := lhdIo_first_write cur lh data block
  rw [if_pos hr] at hio
  exact wblock_of_retry (retry_einval hio)

section Accepted
variable {lh : Lhd} {data : Block} {block : Nat} {irqs : List Nat}
  (hr : ¬ lhdRefuses lh.dBlocks (sfsSector block) 1 = true)
include hr

theorem wblock_asleep (hd : lhdDone lh.irqs = none) :
    sfsWblock cur lh data block = .error .asleep := by
  have hio := lhdIo_first_write cur lh data block
  rw [if_neg hr,hd] at hio
  exact wblock_of_retry (retry_asleep hio)

theorem wblock_ok (hd : lhdDone lh.irqs = some (none, irqs)) :
    sfsWblock cur lh data block = .ok (none, { lh with
      disk := Function.update lh.disk (sfsSector block) data, buf := data, irqs := irqs }) := by
  have hio := lhdIo_first_write cur lh data block
  rw [if_neg hr,hd] at hio
  exact wblock_of_retry (retry_done hio (by simp) (by simp))

theorem wblock_invsect (hd : lhdDone lh.irqs = some (some .einval, irqs)) :
    sfsWblock cur lh data block = .error (.panic "sfs: d_io returned EINVAL") := by
  have hio := lhdIo_first_write cur lh data block
  rw [if_neg hr,hd] at hio
  exact wblock_of_retry (retry_einval hio)

theorem wblock_other {e : Errno} (hd : lhdDone lh.irqs = some (some e, irqs))
    (hi : e ≠ .einval) (he : e ≠ .eio) :
    sfsWblock cur lh data block = .ok (some e, { lh with buf := data, irqs := irqs }) := by
  have hio := lhdIo_first_write cur lh data block
  rw [if_neg hr,hd] at hio
  exact wblock_of_retry (retry_done hio (by simpa using hi) (by simpa using he))

theorem wblock_media (hd : lhdDone lh.irqs = some (some .eio, irqs)) :
    sfsWblock cur lh data block =
      if lhdRefuses lh.dBlocks (sfsNextSector block) 0 then
        .error (.panic "sfs: d_io returned EINVAL")
      else .ok (none, { lh with buf := data, irqs := irqs }) := by
  have hio := lhdIo_first_write cur lh data block
  rw [if_neg hr,hd] at hio
  have hnext := lhdIo_consumed cur { lh with buf := data, irqs := irqs } data block
  dsimp only at hnext
  by_cases hn : lhdRefuses lh.dBlocks (sfsNextSector block) 0
  · rw [if_pos hn] at hnext
    rw [if_pos hn]
    exact wblock_of_retry ((retry_eio hio).trans (retry_einval hnext))
  · rw [if_neg hn] at hnext
    rw [if_neg hn]
    exact wblock_of_retry ((retry_eio hio).trans (retry_done hnext (by simp) (by simp)))

end Accepted

def WriteKept (cur : Curthread) (lh : Lhd) (data : Block) (block : Nat) : Prop :=
  ∀ lh', sfsWblock cur lh data block = .ok (none, lh') →
    lh'.disk = Function.update lh.disk block data

def firstAttemptStands (dBlocks block : Nat) (irqs : List Nat) : Prop :=
  match lhdDone irqs with
  | some (none, _) => sfsSector block = block
  | some (some .eio, _) => lhdRefuses dBlocks (sfsNextSector block) 0 = true
  | _ => True

theorem not_update_self {disk : Nat → Block} {s block : Nat} {a b : Block}
    (hb : disk block ≠ b) (hs : s ≠ block) :
    Function.update disk s a ≠ Function.update disk block b := by
  intro h
  have hat := congrFun h block
  rw [update_of_ne (Ne.symm hs),update_self] at hat
  exact hb hat

theorem zeros_ne_ones : (fun _ => 0 : Block) ≠ (fun _ => 1 : Block) := fun h => by
  simpa using congrFun h 0

theorem write_kept_of_refused {lh : Lhd} {block : Nat}
    (hr : lhdRefuses lh.dBlocks (sfsSector block) 1 = true) (data : Block) :
    WriteKept cur lh data block := by
  intro lh' h
  rw [wblock_refused hr] at h
  simp at h

theorem write_kept_of_stands {lh : Lhd} {block : Nat}
    (hr : ¬ lhdRefuses lh.dBlocks (sfsSector block) 1 = true)
    (hs : firstAttemptStands lh.dBlocks block lh.irqs) (data : Block) :
    WriteKept cur lh data block := by
  unfold firstAttemptStands at hs
  intro lh' hret
  cases hd : lhdDone lh.irqs with
  | none =>
    rw [wblock_asleep hr hd] at hret
    simp at hret
  | some r =>
    obtain ⟨r,rest⟩ := r
    cases r with
    | none =>
      rw [wblock_ok hr hd] at hret
      simp only [hd] at hs
      simp only [Except.ok.injEq,Prod.mk.injEq,true_and] at hret
      rw [← hret,hs]
    | some e =>
      by_cases he : e = .eio
      · subst he
        simp only [hd] at hs
        rw [wblock_media hr hd,if_pos hs] at hret
        simp at hret
      · by_cases hi : e = .einval
        · subst hi
          rw [wblock_invsect hr hd] at hret
          simp at hret
        · rw [wblock_other hr hd hi he] at hret
          simp at hret

theorem stands_of_write_kept {lh : Lhd} {block : Nat}
    (hr : ¬ lhdRefuses lh.dBlocks (sfsSector block) 1 = true)
    (hdisk : lh.disk block ≠ fun _ => 1) (hw : WriteKept cur lh (fun _ => 1) block) :
    firstAttemptStands lh.dBlocks block lh.irqs := by
  unfold firstAttemptStands
  split
  case h_1 hd =>
    by_contra hs
    have hok := @wblock_ok cur lh (fun _ => 1) block _ hr hd
    have hk : update lh.disk (sfsSector block) (fun _ => 1) =
        update lh.disk block (fun _ => 1) := hw _ hok
    exact not_update_self hdisk hs hk
  case h_2 hd =>
    by_contra hn
    have hm := @wblock_media cur lh (fun _ => 1) block _ hr hd
    rw [if_neg hn] at hm
    have hk := congrFun (hw _ hm) block
    rw [update_self] at hk
    exact hdisk hk
  case h_3 => trivial

theorem wblock_kept_iff (lh : Lhd) (block : UInt32) :
    (∀ disk data, WriteKept cur { lh with disk := disk } data block.toNat) ↔
      (lhdRefuses lh.dBlocks (sfsSector block.toNat) 1 = true ∨
        firstAttemptStands lh.dBlocks block.toNat lh.irqs) := by
  by_cases hr : lhdRefuses lh.dBlocks (sfsSector block.toNat) 1 = true
  · refine ⟨fun _ => Or.inl hr,fun _ disk data => ?_⟩
    exact @write_kept_of_refused cur { lh with disk := disk } _ hr data
  · refine ⟨fun h => Or.inr ?_,fun h disk data => ?_⟩
    · exact @stands_of_write_kept cur { lh with disk := fun _ _ => 0 } _ hr zeros_ne_ones (h _ _)
    · exact @write_kept_of_stands cur { lh with disk := disk } _ hr (h.resolve_left hr) data

theorem media_error_write_lost :
    ¬ WriteKept ⟨none, fun _ _ => none⟩ ⟨fun _ _ => 0, fun _ => 0, 8, [20]⟩ (fun _ => 1) 3 := by
  intro h
  have hm := @wblock_media ⟨none,fun _ _ => none⟩ ⟨fun _ _ => 0,fun _ => 0,8,[20]⟩
    (fun _ => 1) 3 [] (by decide) rfl
  rw [if_neg (by decide)] at hm
  have hk := congrFun (h _ hm) 3
  rw [update_self] at hk
  exact zeros_ne_ones hk

end Write

end OS161
