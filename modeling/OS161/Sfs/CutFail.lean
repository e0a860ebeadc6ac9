import OS161.Sfs.Cut

namespace OS161.Sfs

structure Drive where
  buf : Block
  irqs : List Nat

def Fs.deviceOn (fs : Fs) (d : Drive) : Lhd := ⟨fs.disk, d.buf, fs.dBlocks, d.irqs⟩

instance : Device (Fs × Drive) where
  fs w := w.1
  setFs w fs := (fs, w.2)
  rwblock cur w uio := do
    let (result, lh, uio) ← sfsRwblock cur (w.1.deviceOn w.2) uio
    .ok (result, ({ w.1 with disk := lh.disk }, ⟨lh.buf, lh.irqs⟩), uio)

section
variable (cur : Curthread) (fs : Fs) (d : Drive) (b : Nat)

theorem rwblock_drive (uio : Uio) : rwblock cur (fs, d) uio =
    (sfsRwblock cur (fs.deviceOn d) uio >>= fun out =>
      .ok (out.1, ({ fs with disk := out.2.1.disk }, ⟨out.2.1.buf, out.2.1.irqs⟩), out.2.2)) := rfl

theorem rblock_drive : rblock cur (fs, d) b = (sfsRblock cur (fs.deviceOn d) b >>= fun out =>
    .ok (out.1, out.2.1, { fs with disk := out.2.2.disk }, ⟨out.2.2.buf, out.2.2.irqs⟩)) := by
  unfold rblock sfsRblock
  rw [rwblock_drive]
  generalize sfsRwblock cur (fs.deviceOn d) (sfsUio zeros b .read) = p
  cases p <;> rfl

theorem wblock_drive (data : Block) : wblock cur (fs, d) data b =
    (sfsWblock cur (fs.deviceOn d) data b >>= fun out =>
      .ok (out.1, { fs with disk := out.2.disk }, ⟨out.2.buf, out.2.irqs⟩)) := by
  unfold wblock sfsWblock
  rw [rwblock_drive]
  generalize sfsRwblock cur (fs.deviceOn d) (sfsUio data.toMem b .write) = p
  cases p <;> rfl

end

section
variable {cur : Curthread} {lh lh' : Lhd} {b : Nat}

theorem lhdDone_errno {irqs rest : List Nat} {e : Errno} (h : lhdDone irqs = some (some e, rest)) :
    e = .einval ∨ e = .eio := by
  induction irqs with
  | nil => cases h
  | cons val irqs ih =>
    rw [lhdDone] at h
    unfold lhdIrq lhdCodeToErrno at h
    grind

variable (cur) in
theorem lhdIo_first_read (lh : Lhd) (hb : b < 2 ^ 22) :
    lhdIo cur lh (sfsUio zeros b .read) =
      if lhdRefuses lh.dBlocks b 1 then .ok (some .einval, lh, sfsUio zeros b .read)
      else match lhdDone lh.irqs with
        | none => .error .asleep
        | some (some e, irqs) => .ok (some e, { lh with irqs := irqs }, sfsUio zeros b .read)
        | some (none, irqs) => .ok (none, { lh with buf := lh.disk b, irqs := irqs },
            ((sfsUio zeros b .read).fillAt (lh.disk b).toMem 0 512).advance 512) := by
  have hoff : (sfsUio zeros b .read).offset = b * 512 := by
    dsimp only [sfsUio,mkKuio]
    rw [offT_block hb]
  have hmod : u32 (((b : Int) * 512).tmod 512) = 0 := u32_tmod_of_dvd (Int.dvd_mul_left _ _)
  have hready : (sfsUio zeros b .read).ready cur := rfl
  have hres : (sfsUio zeros b .read).resid = 512 := rfl
  have hrw : (sfsUio zeros b .read).rw = .read := rfl
  have hmove (ptr : Mem) : uiomoveAt cur ptr 0 512 (sfsUio zeros b .read) =
      .ok (none, ptr, ((sfsUio zeros b .read).fillAt ptr 0 512).advance 512) :=
    (uiomoveAt_read hready.legal hrw ptr 0 (Nat.zero_lt_succ 511) (Nat.le_refl _)
      (Nat.le_refl _)).resolve_right fun h => h.1 hready
  have hsec : u32 ((b : Int) + (0 : Nat)) = b := u32_of_nat (n := b) (by omega)
  generalize sfsUio zeros b .read = uio at *
  unfold lhdIo
  simp only [hoff,hres,ioSector_block hb,hmod,sectsize]
  rw [if_neg (by decide),show 512 / 512 = 1 from rfl]
  by_cases hr : lhdRefuses lh.dBlocks b 1
  · rw [if_pos hr,if_pos hr]
  · rw [if_neg hr,if_neg hr]
    simp only [lhdIoLoop,hrw,lhdOp,hsec,bind,Except.bind,uiomove,sectsize]
    cases hd : lhdDone lh.irqs with
    | none => rfl
    | some out =>
      obtain ⟨_ | e,irqs⟩ := out
      · simp only [hmove]
      · rfl

variable (cur) in
theorem lhdIo_read_cases (lh : Lhd) (hb : b < 2 ^ 22) :
    lhdIo cur lh (sfsUio zeros b .read) = .error .asleep ∨
      lhdIo cur lh (sfsUio zeros b .read) = .ok (some .eio,
        { lh with irqs := ((lhdDone lh.irqs).elim [] Prod.snd) }, sfsUio zeros b .read) ∨
      (∃ lh' uio', lhdIo cur lh (sfsUio zeros b .read) = .ok (some .einval, lh', uio')) ∨
      ∃ irqs, lhdIo cur lh (sfsUio zeros b .read) = .ok (none,
        { lh with buf := lh.disk b, irqs := irqs },
        ((sfsUio zeros b .read).fillAt (lh.disk b).toMem 0 512).advance 512) := by
  rw [lhdIo_first_read cur lh hb]
  by_cases hr : lhdRefuses lh.dBlocks b 1
  · rw [if_pos hr]
    exact .inr (.inr (.inl ⟨_,_,rfl⟩))
  · rw [if_neg hr]
    cases hd : lhdDone lh.irqs with
    | none => exact .inl rfl
    | some out =>
      obtain ⟨_ | e,irqs⟩ := out
      · exact .inr (.inr (.inr ⟨irqs,rfl⟩))
      · rcases lhdDone_errno hd with rfl | rfl
        · exact .inr (.inr (.inl ⟨_,_,rfl⟩))
        · exact .inr (.inl rfl)

theorem retry_read (hb : b < 2 ^ 22) {retries : Nat} {result : Option Errno} {uio' : Uio}
    (h : sfsRwblockRetry (lhdIo cur) retries lh (sfsUio zeros b .read) = .ok (result, lh', uio')) :
    lh'.disk = lh.disk ∧ lh'.dBlocks = lh.dBlocks ∧
      (result = none → Block.ofMem uio'.iovBuf = lh.disk b) := by
  induction retries using Nat.strongRecOn generalizing lh with
  | ind retries ih =>
    rw [sfsRwblockRetry] at h
    rcases lhdIo_read_cases cur lh hb with hio | hio | ⟨lh₁,uio₁,hio⟩ | ⟨irqs,hio⟩
    · rw [hio] at h
      cases h
    · rw [hio] at h
      cases retries with
      | zero =>
        cases h
        exact ⟨rfl,rfl,fun hn => by cases hn⟩
      | succ retries =>
        have hnext := ih retries (Nat.lt_succ_self _) h
        exact hnext
    · rw [hio] at h
      cases h
    · rw [hio] at h
      cases h
      refine ⟨rfl,rfl,fun _ => ?_⟩
      funext i
      simp [Block.ofMem,Uio.advance,Uio.fillAt,sfsUio,mkKuio,memmove,Block.toMem]

theorem sfsRblock_ok (hb : b < 2 ^ 22) {result : Option Errno} {data : Block}
    (h : sfsRblock cur lh b = .ok (result, data, lh')) :
    lh'.disk = lh.disk ∧ lh'.dBlocks = lh.dBlocks ∧ (result = none → data = lh.disk b) := by
  obtain ⟨⟨result₁,lh₁,uio₁⟩,hrw,hret⟩ := bind_ok h
  cases hret
  exact retry_read hb hrw

end

section
variable {cur : Curthread} {fs fs' : Fs} {d d' : Drive} {b : Nat} {data : Block}
  {result : Option Errno}

theorem rblock_ok (hb : fs.Reaches b) (h : rblock cur (fs, d) b = .ok (result, data, fs', d')) :
    fs' = fs ∧ (result = none → data = fs.disk b) ∧
      ∃ lh, sfsRblock cur (fs.deviceOn d) b = .ok (result, data, lh) ∧ d' = ⟨lh.buf, lh.irqs⟩ := by
  rw [rblock_drive] at h
  obtain ⟨⟨result₁,data₁,lh⟩,hread,hret⟩ := bind_ok h
  cases hret
  obtain ⟨hdisk,-,hdata⟩ := sfsRblock_ok hb.small hread
  refine ⟨?_,hdata,lh,hread,rfl⟩
  rw [hdisk]
  rfl

theorem sfsRblock_first {irqs : List Nat} (hb : fs.Reaches b)
    (hd : lhdDone d.irqs = some (none, irqs)) :
    sfsRblock cur (fs.deviceOn d) b =
      .ok (none, fs.disk b, ⟨fs.disk, fs.disk b, fs.dBlocks, irqs⟩) := by
  have hio := lhdIo_first_read cur (fs.deviceOn d) hb.small
  have hr : ¬ lhdRefuses (fs.deviceOn d).dBlocks b 1 = true := Bool.eq_false_iff.mp (not_refuses hb)
  have hd' : lhdDone (fs.deviceOn d).irqs = some (none, irqs) := hd
  rw [if_neg hr,hd'] at hio
  have hretry := @retry_done cur _ _ _ _ 10 none hio (by simp) (by simp)
  unfold sfsRblock sfsRwblock
  rw [hretry,ok_bind]
  refine congrArg Except.ok (Prod.ext rfl (Prod.ext ?_ rfl))
  funext i
  simp [Block.ofMem,Uio.advance,Uio.fillAt,sfsUio,mkKuio,memmove,Block.toMem,Fs.deviceOn]

theorem sfsSector_eq (hb : b < 2 ^ 22) : sfsSector b = b := by
  unfold sfsSector
  rw [offT_block hb,ioSector_block hb]

theorem accepts (hb : fs.Reaches b) :
    ¬ lhdRefuses (fs.deviceOn d).dBlocks (sfsSector b) 1 = true := by
  rw [sfsSector_eq hb.small]
  exact Bool.eq_false_iff.mp (not_refuses hb)

theorem wblock_lost {irqs : List Nat} (hb : fs.Reaches b)
    (hd : lhdDone d.irqs = some (some .eio, irqs))
    (hn : ¬ lhdRefuses fs.dBlocks (sfsNextSector b) 0 = true) :
    wblock cur (fs, d) data b = .ok (none, fs, ⟨data, irqs⟩) := by
  have hn' : ¬ lhdRefuses (fs.deviceOn d).dBlocks (sfsNextSector b) 0 = true := hn
  rw [wblock_drive,wblock_media (accepts hb) hd,if_neg hn']
  rfl

theorem wblock_lands (hb : fs.Reaches b) (h : wblock cur (fs, d) data b = .ok (result, fs', d')) :
    fs' = fs.store b data ∨ fs' = fs ∧ ∃ irqs, lhdDone d.irqs = some (some .eio, irqs) ∧
      ¬ lhdRefuses fs.dBlocks (sfsNextSector b) 0 = true := by
  have hacc := @accepts fs d b hb
  rw [wblock_drive] at h
  obtain ⟨⟨result₁,lh⟩,hw,hret⟩ := bind_ok h
  cases hret
  cases hd : lhdDone d.irqs with
  | none =>
    rw [wblock_asleep hacc hd] at hw
    cases hw
  | some out =>
    obtain ⟨_ | e,irqs⟩ := out
    · rw [wblock_ok hacc hd,sfsSector_eq hb.small] at hw
      cases hw
      exact .inl rfl
    · rcases lhdDone_errno hd with rfl | rfl
      · rw [wblock_invsect hacc hd] at hw
        cases hw
      · rw [wblock_media hacc hd] at hw
        split at hw
        · cases hw
        · cases hw
          exact .inr ⟨rfl,irqs,rfl,‹_›⟩

end

def Refers (disk : Nat → Block) (n : Inode) (b : Nat) : Prop :=
  b ≠ 0 ∧ ((∃ i, n.direct i = b) ∨ n.indirect = b ∨
    n.indirect ≠ 0 ∧ ∃ j : Fin 128, idEntry (disk n.indirect) j = b)

def CutLands (cur : Curthread) (fs : Fs) (d : Drive) (sv : Sv) (blocklen : Nat) : Prop :=
  sv.inode.indirect ≠ 0 →
  (∃ j : Fin 128, blocklen < 15 + j ∧ idEntry (fs.disk sv.inode.indirect) j ≠ 0) →
  (∃ j : Fin 128, ¬ blocklen < 15 + j ∧ idEntry (fs.disk sv.inode.indirect) j ≠ 0) →
  ∀ data lh irqs, sfsRblock cur (fs.deviceOn d) sv.inode.indirect = .ok (none, data, lh) →
    lhdDone lh.irqs = some (some .eio, irqs) →
    lhdRefuses fs.dBlocks (sfsNextSector sv.inode.indirect) 0 = true

section
variable {lost : Nat → Prop} {fs fs' : Fs} {node : Nodes} {sv sv' : Sv} {b : Nat}

theorem refers_iff (hk : node sv.ino = some sv.inode) :
    Refers fs.disk sv.inode b ↔
      ∃ o, o.isData sv.ino = true ∧ held fs.disk node o = some b := by
  constructor
  · rintro ⟨hb,⟨i,rfl⟩ | rfl | ⟨hi,j,rfl⟩⟩
    · exact ⟨.direct sv.ino i,decide_eq_true rfl,by rw [held_direct hk,ref_of_ne_zero hb]⟩
    · exact ⟨.indirect sv.ino,decide_eq_true rfl,by rw [held_indirect hk,ref_of_ne_zero hb]⟩
    · have hind : held fs.disk node (.indirect sv.ino) = some sv.inode.indirect := by
        rw [held_indirect hk,ref_of_ne_zero hi]
      exact ⟨.entry sv.ino j,decide_eq_true rfl,by rw [held_entry hind,ref_of_ne_zero hb]⟩
  · rintro ⟨o,hdata,ho⟩
    cases o with
    | ino k => cases hdata
    | direct k i =>
      obtain rfl : k = sv.ino := of_decide_eq_true hdata
      rw [held_direct hk,ref_eq_some] at ho
      exact ⟨ho.2,.inl ⟨i,ho.1⟩⟩
    | indirect k =>
      obtain rfl : k = sv.ino := of_decide_eq_true hdata
      rw [held_indirect hk,ref_eq_some] at ho
      exact ⟨ho.2,.inr (.inl ho.1)⟩
    | entry k j =>
      obtain rfl : k = sv.ino := of_decide_eq_true hdata
      by_cases hi : sv.inode.indirect = 0
      · rw [held_entry_none (by rw [held_indirect hk,hi,ref_zero])] at ho
        cases ho
      · have hind : held fs.disk node (.indirect sv.ino) = some sv.inode.indirect := by
          rw [held_indirect hk,ref_of_ne_zero hi]
        rw [held_entry hind,ref_eq_some] at ho
        exact ⟨ho.2,.inr (.inr ⟨hi,j,ho.1⟩)⟩

theorem Sound.refers_marked (hs : Sound lost fs node) (hk : node sv.ino = some sv.inode)
    (h : Refers fs.disk sv.inode b) : fs.marked b := by
  obtain ⟨o,-,ho⟩ := (refers_iff hk).mp h
  exact hs.held_marked ho

end

def dropEntries (n ino : Nat) (p : Owner → Option Nat) : Owner → Option Nat
  | .entry k j => if k = ino ∧ n < 15 + j then none else p (.entry k j)
  | o => p o

section Indirect
variable {cur : Curthread} {lost : Nat → Prop} {fs fs' fs₁ : Fs} {node : Nodes} {sv sv' : Sv}
  {d d' : Drive} {tr : Trimming} {blocklen b idb : Nat} {result : Option Errno}

section
variable (hc : EntriesCut lost fs node idb blocklen fs₁ tr)
include hc

theorem EntriesCut.held_store (hs : Sound lost fs node) {k : Nat}
    (hi : held fs.disk node (.indirect k) = some idb) :
    held (fs₁.store idb tr.idbuf).disk node = dropEntries blocklen k (held fs.disk node) := by
  have hdisk : fs₁.disk = fs.disk := by rw [hc.frame]
  have hsame (k' : Nat) : held (fs₁.store idb tr.idbuf).disk node (.indirect k') =
      held fs.disk node (.indirect k') := rfl
  funext o
  cases o with
  | ino k' | direct k' i | indirect k' => rfl
  | entry k' j =>
    rw [dropEntries]
    rcases eq_or_ne k' k with rfl | hne
    · rw [held_entry ((hsame k').trans hi),held_entry hi]
      dsimp only [Fs.store]
      rw [Function.update_self,hc.trims.entry j]
      simp only [List.mem_finRange,true_and]
      split <;> rfl
    · rw [if_neg fun h => hne h.1]
      cases hk' : held fs.disk node (.indirect k') with
      | none => rw [held_entry_none hk',held_entry_none ((hsame k').trans hk')]
      | some c =>
        have hcb : c ≠ idb := by
          rintro rfl
          exact hne (Owner.indirect.inj (hs.ledger.inj _ _ c hk' hi))
        rw [held_entry hk',held_entry ((hsame k').trans hk')]
        dsimp only [Fs.store]
        rw [Function.update_of_ne hcb,hdisk]

theorem EntriesCut.marked (hs : Sound lost fs node) {k : Nat}
    (hi : held fs.disk node (.indirect k) = some idb) (b : Nat) :
    fs₁.marked b ↔ fs.marked b ∧
      ¬ ∃ j : Fin 128, blocklen < 15 + j ∧ held fs.disk node (.entry k j) = some b := by
  have hled := hc.sound.ledger
  have hfix : (fs₁.store idb tr.idbuf).fixed = fs.fixed := by
    rw [hc.frame]
    rfl
  rw [hc.held_store hs hi,hfix] at hled
  refine (hs.ledger.shrink hled (fun o => ?_) b).trans (and_congr_right fun _ => not_congr ⟨?_,?_⟩)
  · cases o with
    | ino k' | direct k' i | indirect k' => exact .inl rfl
    | entry k' j =>
      rw [dropEntries]
      split
      · exact .inr rfl
      · exact .inl rfl
  · rintro ⟨o,ho,hnone⟩
    cases o with
    | ino k' | direct k' i | indirect k' => cases ho.symm.trans hnone
    | entry k' j =>
      rw [dropEntries] at hnone
      by_cases hcut : k' = k ∧ blocklen < 15 + j
      · obtain ⟨rfl,hj⟩ := hcut
        exact ⟨j,hj,ho⟩
      · rw [if_neg hcut,ho] at hnone
        cases hnone
  · rintro ⟨j,hj,ho⟩
    exact ⟨.entry k j,ho,if_pos ⟨rfl,hj⟩⟩

theorem EntriesCut.reaches (hb : fs.Reaches b) : fs₁.Reaches b := by
  have hdb : fs₁.dBlocks = fs.dBlocks := by rw [hc.frame]
  exact ⟨hb.small,hdb ▸ hb.lt⟩

theorem EntriesCut.refers_freed (hi : held fs.disk node (.indirect sv.ino) = some idb)
    (hk : node sv.ino = some sv.inode) (hr : Refers (fs₁.drop idb).disk (sv.setIndirect 0).inode b) :
    (fs₁.drop idb).marked b := by
  have hdirect : ∃ i, held (fs₁.store idb tr.idbuf).disk node (.direct sv.ino i) = some b := by
    obtain ⟨hb,⟨i,hi'⟩ | hz | ⟨hz,-⟩⟩ := hr
    · have hi'' : sv.inode.direct i = b := hi'
      exact ⟨i,by rw [held_direct hk,hi'',ref_of_ne_zero hb]⟩
    · exact absurd hz.symm hb
    · exact absurd rfl hz
  obtain ⟨i,ho⟩ := hdirect
  have hi' : held (fs₁.store idb tr.idbuf).disk node (.indirect sv.ino) = some idb := hi
  refine marked_drop.mpr ⟨hc.sound.held_marked ho,?_⟩
  rintro rfl
  cases hc.sound.ledger.inj _ _ b ho hi'

end

theorem truncIndirect_kept (hs : Sound lost fs node) (hk : node sv.ino = some sv.inode)
    (hland : CutLands cur fs d sv blocklen)
    (h : truncIndirect cur (fs, d) sv blocklen = .ok (result, (fs', d'), sv'))
    (hr : Refers fs'.disk sv'.inode b) : fs'.marked b := by
  dsimp only [truncIndirect,Device.fs,Device.setFs] at h
  by_cases hcond : blocklen < 15 + 128 - 1 ∧ sv.inode.indirect ≠ 0
  · have hi : held fs.disk node (.indirect sv.ino) = some sv.inode.indirect := by
      rw [held_indirect hk,ref_of_ne_zero hcond.2]
    have hreach := hs.held_reaches hi
    rw [if_pos hcond] at h
    obtain ⟨⟨_ | e,data,fs₀,d₀⟩,hread,hrest⟩ := bind_ok h
    · obtain ⟨rfl,hdata,lh,hlh,rfl⟩ := rblock_ok hreach hread
      obtain rfl := hdata rfl
      obtain ⟨fs₁,tr,hrun,hc⟩ := truncEntries_cut hs hi blocklen
      have hdropped : tr.iddirty = true ↔ ∃ j : Fin 128, blocklen < 15 + j ∧
          idEntry (fs₀.disk sv.inode.indirect) j ≠ 0 := by simpa using hc.trims.iddirty
      have hleft : tr.hasnonzero = true ↔ ∃ j : Fin 128, ¬ blocklen < 15 + j ∧
          idEntry (fs₀.disk sv.inode.indirect) j ≠ 0 := by simpa using hc.trims.hasnonzero
      dsimp only at hrest
      rw [hrun,ok_bind] at hrest
      dsimp only at hrest
      by_cases hempty : tr.hasnonzero = false
      · have hi' : held (fs₁.store sv.inode.indirect tr.idbuf).disk node (.indirect sv.ino) =
            some sv.inode.indirect := hi
        have hmark : fs₁.marked sv.inode.indirect := hc.sound.held_marked hi'
        rw [if_pos hempty,bfree_eq hmark,ok_bind] at hrest
        cases hrest
        exact hc.refers_freed hi hk hr
      · rw [if_neg hempty] at hrest
        by_cases hdirty : tr.iddirty = true
        · rw [if_pos hdirty] at hrest
          obtain ⟨⟨r,fs₂,d₂⟩,hwrite,hret⟩ := bind_ok hrest
          cases hret
          rcases wblock_lands (hc.reaches hreach) hwrite with rfl | ⟨-,irqs,hd,hn⟩
          · exact hc.sound.refers_marked hk hr
          · have hdb : fs₁.dBlocks = fs₀.dBlocks := by rw [hc.frame]
            rw [hdb] at hn
            exact absurd (hland hcond.2 (hdropped.mp hdirty)
              (hleft.mp (Bool.not_eq_false _ ▸ hempty)) _ lh irqs hlh hd) hn
        · rw [if_neg hdirty] at hrest
          cases hrest
          have hdisk : fs'.disk = fs₀.disk := by rw [hc.frame]
          rw [hdisk] at hr
          refine (hc.marked hs hi b).mpr ⟨hs.refers_marked hk hr,fun ⟨j,hj,ho⟩ => ?_⟩
          rw [held_entry hi,ref_eq_some] at ho
          exact hdirty (hdropped.mpr ⟨j,hj,ho.1 ▸ ho.2⟩)
    · obtain ⟨rfl,-⟩ := rblock_ok hreach hread
      cases hrest
      exact hs.refers_marked hk hr
  · rw [if_neg hcond] at h
    cases h
    exact hs.refers_marked hk hr

theorem truncIndirect_lost (hs : Sound lost fs node) (hk : node sv.ino = some sv.inode)
    (hland : ¬ CutLands cur fs d sv blocklen) :
    ∃ fs' d', truncIndirect cur (fs, d) sv blocklen = .ok (none, (fs', d'), sv) ∧
      ∃ b, Refers fs'.disk sv.inode b ∧ ¬ fs'.marked b := by
  unfold CutLands at hland
  push Not at hland
  obtain ⟨hne,⟨j,hj,hnz⟩,⟨j',hj',hnz'⟩,data,lh,irqs,hread,hd,hn⟩ := hland
  have hi : held fs.disk node (.indirect sv.ino) = some sv.inode.indirect := by
    rw [held_indirect hk,ref_of_ne_zero hne]
  have hreach := hs.held_reaches hi
  have hrblock : rblock cur (fs, d) sv.inode.indirect =
      .ok (none, fs.disk sv.inode.indirect, fs, ⟨lh.buf,lh.irqs⟩) := by
    obtain ⟨hdisk,-,hdata⟩ := sfsRblock_ok hreach.small hread
    have hdisk' : lh.disk = fs.disk := hdisk
    have hdata' : data = fs.disk sv.inode.indirect := hdata rfl
    rw [rblock_drive,hread,ok_bind,hdata']
    dsimp only
    rw [hdisk']
  obtain ⟨fs₁,tr,hrun,hc⟩ := truncEntries_cut hs hi blocklen
  have hempty : ¬ tr.hasnonzero = false := by
    rw [hc.trims.hasnonzero.mpr (.inr ⟨j',List.mem_finRange _,Nat.not_lt.mpr hj',hnz'⟩)]
    decide
  have hdirty : tr.iddirty = true :=
    hc.trims.iddirty.mpr (.inr ⟨j,List.mem_finRange _,hj,hnz⟩)
  have hdb : fs₁.dBlocks = fs.dBlocks := by rw [hc.frame]
  have hdisk : fs₁.disk = fs.disk := by rw [hc.frame]
  have hw := @wblock_lost cur fs₁ ⟨lh.buf,lh.irqs⟩ _ tr.idbuf irqs (hc.reaches hreach) hd
    (by rw [hdb]; exact hn)
  refine ⟨fs₁,⟨tr.idbuf,irqs⟩,?_,idEntry (fs.disk sv.inode.indirect) j,?_,fun hmark => ?_⟩
  · dsimp only [truncIndirect,Device.fs,Device.setFs]
    rw [if_pos ⟨by omega,hne⟩,hrblock,ok_bind]
    dsimp only
    rw [hrun,ok_bind]
    rw [if_neg hempty,if_pos hdirty,hw,ok_bind]
  · rw [hdisk]
    exact ⟨hnz,.inr (.inr ⟨hne,j,rfl⟩)⟩
  · refine ((hc.marked hs hi _).mp hmark).2 ⟨j,hj,?_⟩
    rw [held_entry hi,ref_of_ne_zero hnz]

end Indirect

section
variable {cur : Curthread} {lost : Nat → Prop} {fs : Fs} {node : Nodes} {sv : Sv} {d : Drive}
  {len : Int} (hs : Sound lost fs node) (hk : node sv.ino = some sv.inode)
include hs hk

theorem truncDirect_drive (d : Drive) (blocklen : Nat) :
    ∃ fs₁ sv₁, truncDirect blocklen (List.finRange 15) fs sv = .ok (fs₁, sv₁) ∧
      Sound lost fs₁ (node.put sv₁) ∧
      (CutLands cur fs₁ d sv₁ blocklen ↔ CutLands cur fs d sv blocklen) := by
  obtain ⟨fs₁,sv₁,hrun,he,hind,-,-⟩ := truncDirect_spec hs hk blocklen (List.finRange 15)
  obtain ⟨hdisk,-⟩ := truncDirect_direct hrun
  have hdb : fs₁.dBlocks = fs.dBlocks := by rw [he.frame]
  have hdev : fs₁.deviceOn d = fs.deviceOn d := by
    unfold Fs.deviceOn
    rw [hdisk,hdb]
  refine ⟨fs₁,sv₁,hrun,he.sound,?_⟩
  unfold CutLands
  rw [hdev,hdb,hdisk,hind]

theorem truncate_kept (hland : CutLands cur fs d sv (u32 ((offT (len + 511)).tdiv 512)))
    {result : Option Errno} {fs' : Fs} {d' : Drive} {sv' : Sv}
    (h : truncate cur (fs, d) sv len = .ok (result, (fs', d'), sv')) {b : Nat}
    (hb : Refers fs'.disk sv'.inode b) : fs'.marked b := by
  dsimp only [truncate,Device.fs,Device.setFs] at h
  obtain ⟨fs₁,sv₁,hrun,hs₁,hiff⟩ := @truncDirect_drive cur lost fs node sv hs hk d _
  rw [hrun,ok_bind] at h
  obtain ⟨⟨r,⟨fs₂,d₂⟩,sv₂⟩,hrun₂,hret⟩ := bind_ok h
  have hkept {c : Nat} (hc : Refers fs₂.disk sv₂.inode c) : fs₂.marked c :=
    truncIndirect_kept hs₁ (put_apply node sv₁) (hiff.mpr hland) hrun₂ hc
  cases r with
  | none | some e =>
    cases hret
    exact hkept hb

theorem truncate_lost (hland : ¬ CutLands cur fs d sv (u32 ((offT (len + 511)).tdiv 512))) :
    ∃ fs' d' sv', truncate cur (fs, d) sv len = .ok (none, (fs', d'), sv') ∧
      ∃ b, Refers fs'.disk sv'.inode b ∧ ¬ fs'.marked b := by
  dsimp only [truncate,Device.fs,Device.setFs]
  obtain ⟨fs₁,sv₁,hrun,hs₁,hiff⟩ := @truncDirect_drive cur lost fs node sv hs hk d
    (u32 ((offT (len + 511)).tdiv 512))
  obtain ⟨fs₂,d₂,hrun₂,b,hb,hfree⟩ :=
    truncIndirect_lost hs₁ (put_apply node sv₁) (mt hiff.mp hland)
  rw [hrun,ok_bind]
  rw [hrun₂,ok_bind]
  exact ⟨fs₂,d₂,sv₁.resize (u32 len),rfl,b,hb,hfree⟩

end

theorem truncate_frees_only_unreferenced_iff {cur : Curthread} {lost : Nat → Prop} {fs : Fs}
    {node : Nodes} {sv : Sv} (hs : Sound lost fs node) (hk : node sv.ino = some sv.inode)
    (d : Drive) (len : Int) :
    (∀ result fs' d' sv', truncate cur (fs, d) sv len = .ok (result, (fs', d'), sv') →
      ∀ b, Refers fs'.disk sv'.inode b → fs'.marked b) ↔
      CutLands cur fs d sv (u32 ((offT (len + 511)).tdiv 512)) := by
  constructor
  · intro h
    by_contra hland
    obtain ⟨fs',d',sv',hrun,b,hb,hfree⟩ := truncate_lost hs hk hland
    exact hfree (h _ _ _ _ hrun b hb)
  · intro hland result fs' d' sv' h b hb
    exact truncate_kept hs hk hland h hb

theorem truncate_frees_only_unreferenced_whole :
    CutLands ⟨none, fun _ _ => none⟩ sparseFs ⟨zeroBlock, [4, 20]⟩ sparse 0 ∧
      ∀ result fs' d' sv', truncate ⟨none, fun _ _ => none⟩ (sparseFs, (⟨zeroBlock, [4, 20]⟩ : Drive)) sparse 0 =
          .ok (result, (fs', d'), sv') →
        ∀ b, Refers fs'.disk sv'.inode b → fs'.marked b := by
  have hland : CutLands ⟨none,fun _ _ => none⟩ sparseFs ⟨zeroBlock,[4,20]⟩ sparse 0 := by
    rintro - - ⟨j,hj,-⟩
    exact absurd (Nat.lt_add_right _ (by decide : (0 : Nat) < 15)) hj
  exact ⟨hland,(truncate_frees_only_unreferenced_iff sparse_sound sparse_node _ 0).mpr hland⟩

theorem truncate_frees_listed_block :
    ∃ fs' d' sv', truncate ⟨none, fun _ _ => none⟩ (sparseFs, (⟨zeroBlock, [4, 20]⟩ : Drive)) sparse 7680 =
        .ok (none, (fs', d'), sv') ∧
      ∃ b, Refers fs'.disk sv'.inode b ∧ ¬ fs'.marked b := by
  refine truncate_lost sparse_sound sparse_node fun hland => ?_
  have hreach : sparseFs.Reaches 4 := ⟨by decide,by decide⟩
  have hread := @sfsRblock_first ⟨none,fun _ _ => none⟩ sparseFs ⟨zeroBlock,[4,20]⟩ 4 [20]
    hreach rfl
  have hfirst : idEntry (sparseFs.disk 4) 0 = 5 := sparse_entry 0
  have hsecond : idEntry (sparseFs.disk 4) 1 = 6 := sparse_entry 1
  have hrefused := hland (by decide) ⟨1,by decide,?_⟩ ⟨0,by decide,?_⟩ _ _ [] hread rfl
  · exact absurd hrefused (by decide)
  · exact hsecond ▸ (by decide)
  · exact hfirst ▸ (by decide)

end OS161.Sfs
