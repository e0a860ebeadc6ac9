import OS161.Sfs.Contents

namespace OS161.Sfs

open Function

section
variable {lost : Nat → Prop} {d : Nat → Byte} {lo b : Nat} {fs fs' : Fs} {node : Nodes}
  {sv sv' : Sv} {s : Owner}

theorem Sound.unowned (hs : Sound lost fs node) (hfree : ¬ fs.marked b) (o : Owner) :
    held fs.disk node o ≠ some b := hs.ledger.fresh hfree o

theorem held_take (hs : Sound lost fs node) (hfree : ¬ fs.marked b) :
    held (fs.take b).disk node = held fs.disk node :=
  held_update_disk (fun _ => hs.unowned hfree _) _

theorem cell_take (hs : Sound lost fs node) (hfree : ¬ fs.marked b) :
    cell (fs.take b).disk node = cell fs.disk node := by
  unfold cell
  rw [held_take hs hfree]
  exact Ledger.cell_unowned _ fun o => hs.unowned hfree o

theorem take_disk_self (fs : Fs) (b : Nat) : (fs.take b).disk b = zeroBlock :=
  update_self ..

variable (hs : Sound lost fs node) (hb : b < fs.nblocks) (hfree : ¬ fs.marked b)
  (hdata : s.isData sv.ino = true) (hnone : held fs.disk node s = none)
  (hframe : fs' = { fs.take b with disk := fs'.disk })
  (hsame : sv' = { sv with
    inode := { sv.inode with direct := sv'.inode.direct, indirect := sv'.inode.indirect }
    dirty := sv'.dirty })
  (hclean : sv'.dirty = false → sv' = sv)
  (hheld : held fs'.disk (node.put sv') = Function.update (held fs.disk node) s (some b))
  (hcell : ∀ o, o ≠ .indirect sv.ino → cell fs'.disk (node.put sv') o = cell fs.disk node o)
include hs hb hfree hdata hnone hframe hsame hclean hheld hcell

theorem Writes.adopt : Writes lost d lo lo fs node sv fs' sv' := by
  have hlt : b < fs.nbits := Nat.lt_of_lt_of_le hb hs.fits
  have hmark (c : Nat) : fs'.marked c ↔ fs.marked c ∨ c = b := by
    rw [hframe]
    exact marked_mark hlt
  have hgeo : Geometry fs' := by
    rw [hframe]
    exact hs.take.withDisk _
  have hfix : fs'.fixed = fs.fixed := by
    rw [hframe]
    rfl
  refine ⟨⟨?_,?_,hclean,⟨hgeo,?_⟩,fun o ho => ⟨?_,hcell o ?_⟩⟩,?_,fun x => ?_⟩
  · rw [hframe]
    rfl
  · rw [hsame]
  · rw [hheld,hfix]
    exact hs.ledger.take hfree hnone hmark
  · have hne : o ≠ s := by
      rintro rfl
      rw [hdata] at ho
      cases ho
    rw [hheld,update_of_ne hne]
  · rintro rfl
    simp [Owner.isData] at ho
  · rw [hsame]
  · rw [if_neg (by omega)]
    unfold fileByte
    cases ho : fileSlot sv.ino (x / 512) with
    | none => rfl
    | some o =>
      have hne : o ≠ .indirect sv.ino := by
        rintro rfl
        unfold fileSlot at ho
        grind
      simp only [hcell o hne]

theorem Fills.adopt : Fills lost d lo lo fs node sv fs' sv' := by
  refine ⟨.adopt hs hb hfree hdata hnone hframe hsame hclean hheld hcell,fun o c ho => ?_,
    fun x hlo hhi => by omega⟩
  have hne : o ≠ s := by
    rintro rfl
    rw [hnone] at ho
    cases ho
  rwa [hheld,update_of_ne hne]

end

section Direct
variable {cur : Curthread} {lost : Nat → Prop} {d : Nat → Byte} {lo b : Nat} {fs fs' : Fs}
  {node : Nodes} {sv sv' : Sv}

def Sv.setDirect (sv : Sv) (i : Fin 15) (b : Nat) : Sv :=
  { sv with inode := { sv.inode with direct := Function.update sv.inode.direct i b }, dirty := true }

def Sv.setIndirect (sv : Sv) (b : Nat) : Sv :=
  { sv with inode := { sv.inode with indirect := b }, dirty := true }

def Mapped (before after : Option Nat) (out : Except Errno Nat) : Prop :=
  out = .error .enospc ∧ before = none ∨ ∃ b, out = .ok b ∧ after = some b

theorem bmapDone_eq (hs : Sound lost fs node) {o : Owner} (ho : held fs.disk node o = ref b) :
    bmapDone fs sv b = .ok (.ok b, fs, sv) := by
  dsimp only [bmapDone,Device.fs]
  by_cases hb : b = 0
  · rw [if_neg (not_not.mpr hb)]
  · rw [ref_of_ne_zero hb] at ho
    rw [if_pos hb,bused_eq (hs.held_lt ho) (hs.held_marked ho),ok_bind]
    rfl

variable (hs : Sound lost fs node) (hk : node sv.ino = some sv.inode)

include hs hk in
theorem writes_setDirect (hb : b < fs.nblocks) (hfree : ¬ fs.marked b) {i : Fin 15}
    (hi : sv.inode.direct i = 0) : Fills lost d lo lo fs node sv (fs.take b) (sv.setDirect i b) := by
  have hnone : held fs.disk node (.direct sv.ino i) = none := by
    rw [held_direct hk,hi,ref_zero]
  have hheld : held (fs.take b).disk (node.put (sv.setDirect i b)) =
      update (held fs.disk node) (.direct sv.ino i) (some b) := by
    rw [← held_take hs hfree,← ref_of_ne_zero (hs.ne_zero hfree)]
    exact held_set_direct hk i b
  refine .adopt (s := .direct sv.ino i) hs hb hfree (decide_eq_true rfl) hnone rfl rfl
    (fun h => nomatch h) hheld fun o _ => ?_
  unfold cell
  rw [hheld,Ledger.cell_hand hnone (take_disk_self fs b)]
  exact congrFun (Ledger.cell_unowned _ fun o => hs.unowned hfree o) o

include hs hk in
theorem writes_setIndirect (hb : b < fs.nblocks) (hfree : ¬ fs.marked b)
    (hi : sv.inode.indirect = 0) : Fills lost d lo lo fs node sv (fs.take b) (sv.setIndirect b) := by
  have hnone : held fs.disk node (.indirect sv.ino) = none := by
    rw [held_indirect hk,hi,ref_zero]
  have hheld : held (fs.take b).disk (node.put (sv.setIndirect b)) =
      update (held fs.disk node) (.indirect sv.ino) (some b) := by
    rw [← held_take hs hfree,← ref_of_ne_zero (hs.ne_zero hfree)]
    exact held_set_indirect hk hi (take_disk_self fs b)
  refine .adopt (s := .indirect sv.ino) hs hb hfree (decide_eq_true rfl) hnone rfl rfl
    (fun h => nomatch h) hheld fun o _ => ?_
  unfold cell
  rw [hheld,Ledger.cell_hand hnone (take_disk_self fs b)]
  exact congrFun (Ledger.cell_unowned _ fun o => hs.unowned hfree o) o

def Fs.store (fs : Fs) (b : Nat) (data : Block) : Fs :=
  { fs with disk := Function.update fs.disk b data }

section
variable (hs : Sound lost fs node) (hk : node sv.ino = some sv.inode)
include hs hk

theorem writes_setEntry (hb : b < fs.nblocks) (hfree : ¬ fs.marked b) {idb : Nat}
    (hi : held fs.disk node (.indirect sv.ino) = some idb) {j : Fin 128}
    (hj : held fs.disk node (.entry sv.ino j) = none) :
    Fills lost d lo lo fs node sv ((fs.take b).store idb (setEntry (fs.disk idb) j b)) sv := by
  have hne : idb ≠ b := fun heq => hs.unowned hfree _ (heq ▸ hi)
  have hdisk : (fs.take b).disk idb = fs.disk idb := update_of_ne hne _ _
  have hsmall : b < 2 ^ 32 := by
    have h := hs.small
    omega
  have hheld : held (update (fs.take b).disk idb (setEntry (fs.disk idb) j b)) node =
      update (held fs.disk node) (.entry sv.ino j) (some b) := by
    rw [← held_take hs hfree,← ref_of_ne_zero (hs.ne_zero hfree),← hdisk]
    refine held_set_entry ?_ (fun k' hk' => ?_) j hsmall
    · rw [held_take hs hfree,hi]
    · rw [held_take hs hfree] at hk'
      exact Owner.indirect.inj (hs.ledger.inj _ _ idb hk' hi)
  refine .adopt (s := .entry sv.ino j) hs hb hfree (decide_eq_true rfl) hj rfl rfl
    (fun _ => rfl) ?_ fun o ho => ?_
  · rw [put_self hk]
    exact hheld
  · rw [put_self hk]
    dsimp only [Fs.store]
    unfold cell
    rw [hheld]
    have hz : update (fs.take b).disk idb (setEntry (fs.disk idb) j b) b = zeroBlock := by
      rw [update_of_ne hne.symm,take_disk_self]
    have hinj (o' : Owner) (ho' : held fs.disk node o' = some idb) : o' = .indirect sv.ino :=
      hs.ledger.inj _ _ idb ho' hi
    have htake := congrFun (cell_take hs hfree) o
    unfold cell at htake
    rw [held_take hs hfree] at htake
    rw [Ledger.cell_hand hj hz,Ledger.cell_write _ hinj hi,update_of_ne ho,htake]

theorem bmapDirect_write (i : Fin 15) :
    ∃ out fs' sv', bmapDirect cur fs sv i true = .ok (out, fs', sv') ∧
      Fills lost d lo lo fs node sv fs' sv' ∧
      Mapped (held fs.disk node (.direct sv.ino i))
        (held fs'.disk (node.put sv') (.direct sv.ino i)) out := by
  unfold bmapDirect
  by_cases hz : sv.inode.direct i = 0
  · rw [if_pos ⟨hz,rfl⟩]
    rcases balloc_cases hs with ⟨hfull,-⟩ | ⟨b,hok,hlt,hfree⟩
    · refine ⟨.error .enospc,fs,sv,?_,.refl hs hk,.inl ⟨rfl,?_⟩⟩
      · rw [hfull,ok_bind]
      · rw [held_direct hk,hz,ref_zero]
    · have hw := @writes_setDirect lost d lo b fs node sv hs hk hlt hfree i hz
      have hheld : held (fs.take b).disk (node.put (sv.setDirect i b)) (.direct sv.ino i) =
          some b := by
        have hself := @held_direct (fs.take b).disk _ _ _ (put_apply node (sv.setDirect i b)) i
        dsimp only [Sv.setDirect] at hself
        rw [update_self,ref_of_ne_zero (hs.ne_zero hfree)] at hself
        exact hself
      have hdone : bmapDone (fs.take b) (sv.setDirect i b) b =
          .ok (.ok b, fs.take b, sv.setDirect i b) :=
        bmapDone_eq hw.sound (hheld.trans (ref_of_ne_zero (hs.ne_zero hfree)).symm)
      refine ⟨.ok b,fs.take b,sv.setDirect i b,?_,hw,.inr ⟨b,rfl,hheld⟩⟩
      rw [hok,ok_bind]
      exact hdone
  · rw [if_neg fun h => hz h.1]
    refine ⟨.ok (sv.inode.direct i),fs,sv,bmapDone_eq hs (held_direct hk i),.refl hs hk,
      .inr ⟨_,rfl,?_⟩⟩
    rw [put_self hk,held_direct hk,ref_of_ne_zero hz]

theorem bmapEntry_write {idb : Nat} (hi : held fs.disk node (.indirect sv.ino) = some idb)
    (j : Fin 128) :
    ∃ out fs' sv', bmapEntry cur fs sv (fs.disk idb) idb j true = .ok (out, fs', sv') ∧
      Fills lost d lo lo fs node sv fs' sv' ∧
      Mapped (held fs.disk node (.entry sv.ino j))
        (held fs'.disk (node.put sv') (.entry sv.ino j)) out := by
  have hj := held_entry hi j
  unfold bmapEntry
  by_cases hz : idEntry (fs.disk idb) j = 0
  · rw [if_pos ⟨hz,rfl⟩]
    rw [hz,ref_zero] at hj
    rcases balloc_cases hs with ⟨hfull,-⟩ | ⟨b,hok,hlt,hfree⟩
    · refine ⟨.error .enospc,fs,sv,?_,.refl hs hk,.inl ⟨rfl,hj⟩⟩
      rw [hfull,ok_bind]
    · have hw := @writes_setEntry lost d lo b fs node sv hs hk hlt hfree idb hi j hj
      have hsmall : b < 2 ^ 32 := by
        have h := hs.small
        omega
      have hreach : (fs.take b).Reaches idb := hs.take.reaches (hs.held_lt hi)
      have hheld : held ((fs.take b).store idb (setEntry (fs.disk idb) j b)).disk (node.put sv)
          (.entry sv.ino j) = some b := by
        have hi' : held ((fs.take b).store idb (setEntry (fs.disk idb) j b)).disk (node.put sv)
            (.indirect sv.ino) = some idb := by
          rw [put_self hk]
          exact hi
        rw [held_entry hi']
        dsimp only [Fs.store]
        rw [update_self,idEntry_setEntry_self j.isLt hsmall,
          ref_of_ne_zero (hs.ne_zero hfree)]
      have hdone := @bmapDone_eq lost b ((fs.take b).store idb (setEntry (fs.disk idb) j b)) _ sv
        hw.sound _ (hheld.trans (ref_of_ne_zero (hs.ne_zero hfree)).symm)
      refine ⟨.ok b,_,sv,?_,hw,.inr ⟨b,rfl,hheld⟩⟩
      rw [hok,ok_bind]
      dsimp only
      rw [wblock_eq hreach,ok_bind]
      exact hdone
  · rw [if_neg fun h => hz h.1]
    refine ⟨.ok (idEntry (fs.disk idb) j),fs,sv,bmapDone_eq hs hj,.refl hs hk,
      .inr ⟨_,rfl,?_⟩⟩
    rw [put_self hk,hj,ref_of_ne_zero hz]

theorem bmapIndirect_write (j : Fin 128) :
    ∃ out fs' sv', bmapIndirect cur fs sv j true = .ok (out, fs', sv') ∧
      Fills lost d lo lo fs node sv fs' sv' ∧
      Mapped (held fs.disk node (.entry sv.ino j))
        (held fs'.disk (node.put sv') (.entry sv.ino j)) out := by
  unfold bmapIndirect
  rw [if_neg fun h => nomatch h.2]
  by_cases hz : sv.inode.indirect = 0
  · rw [if_pos hz]
    have hnone : held fs.disk node (.entry sv.ino j) = none := by
      refine held_entry_none ?_ j
      rw [held_indirect hk,hz,ref_zero]
    rcases balloc_cases hs with ⟨hfull,-⟩ | ⟨b,hok,hlt,hfree⟩
    · refine ⟨.error .enospc,fs,sv,?_,.refl hs hk,.inl ⟨rfl,hnone⟩⟩
      rw [hfull,ok_bind]
    · have hw := @writes_setIndirect lost d lo b fs node sv hs hk hlt hfree hz
      have hi : held (fs.take b).disk (node.put (sv.setIndirect b))
          (.indirect (sv.setIndirect b).ino) = some b := by
        rw [held_indirect (put_apply node (sv.setIndirect b))]
        exact ref_of_ne_zero (hs.ne_zero hfree)
      obtain ⟨out,fs',sv',hrun,hw',hm⟩ :=
        @bmapEntry_write cur lost d lo (fs.take b) _ _ hw.sound (put_apply node _) b hi j
      have hput := @put_put node _ _ hw'.ino
      rw [take_disk_self] at hrun
      refine ⟨out,fs',sv',?_,hw.trans hw' (Nat.le_refl _) (Nat.le_refl _),?_⟩
      · rw [hok,ok_bind]
        exact hrun
      · rw [hput] at hm
        exact hm.imp_left fun h => ⟨h.1,hnone⟩
  · rw [if_neg hz]
    have hi : held fs.disk node (.indirect sv.ino) = some sv.inode.indirect := by
      rw [held_indirect hk,ref_of_ne_zero hz]
    rw [rblock_eq (hs.held_reaches hi),ok_bind]
    exact bmapEntry_write hs hk hi j

end

variable (cur) in
theorem bmap_beyond {W : Type} [Device W] (w : W) (sv : Sv) {fb : Nat} (hfb : 143 ≤ fb)
    (doalloc : Bool) : bmap cur w sv fb doalloc = .ok (.error .einval, w, sv) := by
  unfold bmap ndirect dbperidb
  rw [dif_neg (by omega)]
  rw [if_pos (by omega)]

include hs hk in
theorem bmap_write {fb : Nat} {o : Owner} (ho : fileSlot sv.ino fb = some o) :
    ∃ out fs' sv', bmap cur fs sv fb true = .ok (out, fs', sv') ∧
      Fills lost d lo lo fs node sv fs' sv' ∧
      Mapped (held fs.disk node o) (held fs'.disk (node.put sv') o) out := by
  unfold bmap ndirect dbperidb
  unfold fileSlot at ho
  by_cases hd : fb < 15
  · rw [dif_pos hd] at ho ⊢
    cases ho
    exact bmapDirect_write hs hk _
  · rw [dif_neg hd] at ho ⊢
    by_cases hj : fb - 15 < 128
    · rw [dif_pos hj] at ho
      cases ho
      rw [if_neg (by omega),Nat.mod_eq_of_lt hj]
      exact bmapIndirect_write hs hk ⟨fb - 15,hj⟩
    · rw [dif_neg hj] at ho
      cases ho

theorem bmapEntry_read (hs : Sound lost fs node) {idb : Nat}
    (hi : held fs.disk node (.indirect sv.ino) = some idb) (j : Fin 128) :
    bmapEntry cur fs sv (fs.disk idb) idb j false =
      .ok (.ok ((held fs.disk node (.entry sv.ino j)).getD 0), fs, sv) := by
  have hj := held_entry hi j
  have hval : (ref (idEntry (fs.disk idb) j)).getD 0 = idEntry (fs.disk idb) j := by
    unfold ref
    split <;> simp [*]
  unfold bmapEntry
  rw [if_neg (fun h => nomatch h.2),bmapDone_eq hs hj,hj,hval]

include hs hk in
theorem bmap_read {fb : Nat} {o : Owner} (ho : fileSlot sv.ino fb = some o) :
    bmap cur fs sv fb false = .ok (.ok ((held fs.disk node o).getD 0), fs, sv) := by
  unfold bmap ndirect dbperidb
  unfold fileSlot at ho
  by_cases hd : fb < 15
  · rw [dif_pos hd] at ho ⊢
    cases ho
    have hval : (ref (sv.inode.direct ⟨fb,hd⟩)).getD 0 = sv.inode.direct ⟨fb,hd⟩ := by
      unfold ref
      split <;> simp [*]
    unfold bmapDirect
    rw [if_neg (fun h => nomatch h.2),bmapDone_eq hs (held_direct hk _),held_direct hk,hval]
  · rw [dif_neg hd] at ho ⊢
    by_cases hj : fb - 15 < 128
    · rw [dif_pos hj] at ho
      cases ho
      rw [if_neg (by omega),Nat.mod_eq_of_lt hj]
      unfold bmapIndirect
      by_cases hz : sv.inode.indirect = 0
      · have hi : held fs.disk node (.indirect sv.ino) = none := by
          rw [held_indirect hk,hz,ref_zero]
        rw [if_pos ⟨hz,rfl⟩,held_entry_none hi]
        rfl
      · have hi : held fs.disk node (.indirect sv.ino) = some sv.inode.indirect := by
          rw [held_indirect hk,ref_of_ne_zero hz]
        rw [if_neg fun h => hz h.1,if_neg hz,rblock_eq (hs.held_reaches hi),ok_bind]
        exact bmapEntry_read hs hi ⟨fb - 15,hj⟩
    · rw [dif_neg hj] at ho
      cases ho

end Direct

end OS161.Sfs
