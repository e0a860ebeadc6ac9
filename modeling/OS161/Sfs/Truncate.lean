import OS161.Sfs.Bmap
import OS161.Sfs.Vnode

namespace OS161.Sfs

open Function

section
variable {lost : Nat → Prop} {fs : Fs} {node : Nodes} {sv sv' : Sv} {s : Owner} {b : Nat}

theorem Sound.release (hs : Sound lost fs node) {node' : Nodes}
    (ho : held fs.disk node s = some b)
    (hheld : held fs.disk node' = Function.update (held fs.disk node) s none) :
    Sound lost (fs.drop b) node' := by
  refine ⟨hs.drop,?_⟩
  have hled := hs.ledger.drop ho fun c => @marked_drop fs b c
  rw [← hheld] at hled
  exact hled

theorem Edits.release (hs : Sound lost fs node) (ho : held fs.disk node s = some b)
    (hdata : s.isData sv.ino = true)
    (hsame : sv' = { sv with
      inode := { sv.inode with direct := sv'.inode.direct, indirect := sv'.inode.indirect }
      dirty := sv'.dirty })
    (hdirty : sv'.dirty = true)
    (hheld : held fs.disk (node.put sv') = Function.update (held fs.disk node) s none) :
    Edits lost fs node sv (fs.drop b) sv' := by
  refine ⟨rfl,?_,fun h => absurd (hdirty.symm.trans h) (by decide),hs.release ho hheld,
    fun o hne => ?_⟩
  · rw [hsame]
  · have hos : o ≠ s := by
      rintro rfl
      rw [hdata] at hne
      cases hne
    have hsame : held (fs.drop b).disk (node.put sv') o = held fs.disk node o := by
      change held fs.disk (node.put sv') o = _
      rw [hheld,update_of_ne hos]
    refine ⟨hsame,?_⟩
    unfold cell Ledger.cell
    rw [hsame]
    rfl

theorem edits_dropDirect (hs : Sound lost fs node) (hk : node sv.ino = some sv.inode) {i : Fin 15}
    (hi : sv.inode.direct i ≠ 0) :
    Edits lost fs node sv (fs.drop (sv.inode.direct i)) (sv.setDirect i 0) := by
  refine .release (s := .direct sv.ino i) hs ?_ (decide_eq_true rfl) rfl rfl ?_
  · rw [held_direct hk,ref_of_ne_zero hi]
  · exact held_set_direct hk i 0

theorem truncDirect_spec (hs : Sound lost fs node) (hk : node sv.ino = some sv.inode)
    (blocklen : Nat) (l : List (Fin 15)) :
    ∃ fs' sv', truncDirect blocklen l fs sv = .ok (fs', sv') ∧ Edits lost fs node sv fs' sv' ∧
      sv'.inode.indirect = sv.inode.indirect ∧
      (∀ i, sv.inode.direct i = 0 → sv'.inode.direct i = 0) ∧
      (blocklen = 0 → ∀ i ∈ l, sv'.inode.direct i = 0) := by
  induction l generalizing fs sv node with
  | nil => exact ⟨fs,sv,rfl,.refl hs hk,rfl,fun _ h => h,fun _ _ h => nomatch h⟩
  | cons i rest ih =>
    rw [truncDirect]
    by_cases hi : blocklen ≤ i ∧ sv.inode.direct i ≠ 0
    · have he := edits_dropDirect hs hk hi.2
      have hheld : held fs.disk node (.direct sv.ino i) = some (sv.inode.direct i) := by
        rw [held_direct hk,ref_of_ne_zero hi.2]
      obtain ⟨fs',sv',hrun,he',hind,hkeep,hall⟩ := ih he.sound (put_apply node _)
      rw [if_pos hi,bfree_eq (hs.held_marked hheld),ok_bind]
      have hzero : (sv.setDirect i 0).inode.direct i = 0 := update_self ..
      refine ⟨fs',sv',hrun,he.trans he',hind,fun i' h => hkeep i' ?_,fun hb i' hmem => ?_⟩
      · rcases eq_or_ne i' i with rfl | hne
        · exact hzero
        · exact (update_of_ne hne ..).trans h
      · rcases List.mem_cons.mp hmem with rfl | hmem
        · exact hkeep i' hzero
        · exact hall hb i' hmem
    · obtain ⟨fs',sv',hrun,he,hind,hkeep,hall⟩ := ih hs hk
      rw [if_neg hi]
      refine ⟨fs',sv',hrun,he,hind,hkeep,fun hb i' hmem => ?_⟩
      rcases List.mem_cons.mp hmem with rfl | hmem
      · refine hkeep i' ?_
        by_contra hne
        exact hi ⟨hb ▸ Nat.zero_le _,hne⟩
      · exact hall hb i' hmem

end

structure Trimmed (blocklen : Nat) (l : List (Fin 128)) (tr tr' : Trimming) : Prop where
  untouched : tr'.iddirty = false → tr.iddirty = false ∧ tr'.idbuf = tr.idbuf
  zeroed : ∀ j : Fin 128, idEntry tr.idbuf j = 0 → idEntry tr'.idbuf j = 0
  empty : tr'.hasnonzero = false →
    tr.hasnonzero = false ∧ ∀ j ∈ l, idEntry tr'.idbuf j = 0
  whole : blocklen = 0 → tr'.hasnonzero = tr.hasnonzero

section Entries
variable {cur : Curthread} {lost : Nat → Prop} {fs : Fs} {node : Nodes} {sv : Sv} {k idb : Nat}

theorem Sound.dropEntry {idbuf : Block} {j : Fin 128} (hs : Sound lost (fs.store idb idbuf) node)
    (hi : held fs.disk node (.indirect k) = some idb) (hj : idEntry idbuf j ≠ 0) :
    fs.marked (idEntry idbuf j) ∧
      Sound lost ((fs.drop (idEntry idbuf j)).store idb (setEntry idbuf j 0)) node := by
  have hi' : held (fs.store idb idbuf).disk node (.indirect k) = some idb := hi
  have hdisk : (fs.store idb idbuf).disk idb = idbuf := update_self ..
  have hent : held (fs.store idb idbuf).disk node (.entry k j) = some (idEntry idbuf j) := by
    rw [held_entry hi',hdisk,ref_of_ne_zero hj]
  have hinj (k' : Nat) (hk' : held (fs.store idb idbuf).disk node (.indirect k') = some idb) :
      k' = k := Owner.indirect.inj (hs.ledger.inj _ _ idb hk' hi')
  have hset := held_set_entry hi' hinj j (v := 0) (by decide)
  have hstore : update (fs.store idb idbuf).disk idb (setEntry idbuf j 0) =
      update fs.disk idb (setEntry idbuf j 0) := update_idem ..
  rw [hdisk,ref_zero,hstore] at hset
  refine ⟨hs.held_marked hent,hs.drop.withDisk _,?_⟩
  have hled := hs.ledger.drop hent fun c => @marked_drop (fs.store idb idbuf) _ c
  rw [← hset] at hled
  exact hled

theorem truncEntries_spec {tr : Trimming} (hs : Sound lost (fs.store idb tr.idbuf) node)
    (hi : held fs.disk node (.indirect k) = some idb) (blocklen : Nat) (l : List (Fin 128)) :
    ∃ fs' tr', truncEntries blocklen l fs tr = .ok (fs', tr') ∧
      fs' = { fs with freemap := fs'.freemap } ∧ Sound lost (fs'.store idb tr'.idbuf) node ∧
      Trimmed blocklen l tr tr' := by
  induction l generalizing fs tr with
  | nil =>
    exact ⟨fs,tr,rfl,rfl,hs,fun h => ⟨h,rfl⟩,fun _ h => h,
      fun h => ⟨h,fun _ hmem => absurd hmem List.not_mem_nil⟩,fun _ => rfl⟩
  | cons j rest ih =>
    rw [truncEntries]
    by_cases hj : blocklen < 15 + j ∧ idEntry tr.idbuf j ≠ 0
    · obtain ⟨hmark,hs'⟩ := hs.dropEntry hi hj.2
      obtain ⟨fs',tr',hrun,hframe,hsound,ht⟩ :=
        @ih (fs.drop (idEntry tr.idbuf j)) ⟨setEntry tr.idbuf j 0,tr.hasnonzero,true⟩ hs' hi
      have hself : idEntry tr'.idbuf j = 0 :=
        ht.zeroed j (idEntry_setEntry_self j.isLt (by decide))
      rw [if_pos hj,bfree_eq hmark,ok_bind]
      refine ⟨fs',tr',hrun,hframe,hsound,fun h => (nomatch (ht.untouched h).1),
        fun j' h => ?_,fun h => ⟨(ht.empty h).1,fun j' hmem => ?_⟩,ht.whole⟩
      · rcases eq_or_ne j' j with rfl | hne
        · exact hself
        · refine ht.zeroed j' ?_
          rw [idEntry_setEntry_of_ne j'.isLt fun heq => hne (Fin.ext heq)]
          exact h
      · rcases List.mem_cons.mp hmem with rfl | hmem
        · exact hself
        · exact (ht.empty h).2 j' hmem
    · obtain ⟨fs',tr',hrun,hframe,hsound,ht⟩ :=
        @ih fs { tr with hasnonzero := tr.hasnonzero || decide (idEntry tr.idbuf j ≠ 0) } hs hi
      rw [if_neg hj]
      refine ⟨fs',tr',hrun,hframe,hsound,ht.untouched,ht.zeroed,fun h => ?_,fun hb => ?_⟩
      · obtain ⟨hflag,hrest⟩ := ht.empty h
        simp only [Bool.or_eq_false_iff,decide_eq_false_iff_not,not_not] at hflag
        refine ⟨hflag.1,fun j' hmem => ?_⟩
        rcases List.mem_cons.mp hmem with rfl | hmem
        · exact ht.zeroed j' hflag.2
        · exact hrest j' hmem
      · have hz : idEntry tr.idbuf j = 0 := by
          by_contra hne
          exact hj ⟨by omega,hne⟩
        rw [ht.whole hb]
        simp [hz]

theorem held_clear_indirect (hk : node sv.ino = some sv.inode)
    (hz : ∀ j, held fs.disk node (.entry sv.ino j) = none) {disk : Nat → Block}
    (hsame : ∀ k' j, k' ≠ sv.ino → held disk node (.entry k' j) = held fs.disk node (.entry k' j)) :
    held disk (node.put (sv.setIndirect 0)) =
      Function.update (held fs.disk node) (.indirect sv.ino) none := by
  have hself : node.put (sv.setIndirect 0) sv.ino = some (sv.setIndirect 0).inode :=
    put_apply node (sv.setIndirect 0)
  have hother {k' : Nat} (hne : k' ≠ sv.ino) : node.put (sv.setIndirect 0) k' = node k' :=
    update_of_ne hne ..
  have hnone : held disk (node.put (sv.setIndirect 0)) (.indirect sv.ino) = none := by
    rw [held_indirect hself]
    rfl
  funext o
  rcases eq_or_ne o (.indirect sv.ino) with rfl | hne
  · rw [update_self,hnone]
  · rw [update_of_ne hne]
    cases o with
    | ino k' =>
      rcases eq_or_ne k' sv.ino with rfl | hk'
      · simp only [held,hself,hk,Option.map_some]
      · simp only [held,hother hk']
    | direct k' i =>
      rcases eq_or_ne k' sv.ino with rfl | hk'
      · rw [held_direct hself,held_direct hk]
        rfl
      · simp only [held,hother hk']
    | indirect k' =>
      have hk' : k' ≠ sv.ino := fun heq => hne (heq ▸ rfl)
      simp only [held,hother hk']
    | entry k' j =>
      rcases eq_or_ne k' sv.ino with rfl | hk'
      · rw [held_entry_none hnone,hz]
      · rw [← hsame k' j hk']
        simp only [held,hother hk']

theorem store_self (fs : Fs) (b : Nat) : fs.store b (fs.disk b) = fs := by
  unfold Fs.store
  rw [update_eq_self]

theorem edits_of_disk {fs' : Fs} (hk : node sv.ino = some sv.inode)
    (hi : held fs.disk node (.indirect sv.ino) = some idb) (hs : Sound lost fs node)
    (idbuf : Block) (hframe : fs' = { fs with freemap := fs'.freemap, disk := fs'.disk })
    (hdisk : fs'.disk = Function.update fs.disk idb idbuf) (hs' : Sound lost fs' node) :
    Edits lost fs node sv fs' sv := by
  refine ⟨hframe,rfl,fun _ => rfl,?_,fun o ho => ?_⟩
  · rwa [put_self hk]
  · rw [put_self hk,hdisk]
    have hheld : held (update fs.disk idb idbuf) node o = held fs.disk node o := by
      cases o with
      | ino _ | direct _ _ | indirect _ => rfl
      | entry k' j =>
        have hne : k' ≠ sv.ino := of_decide_eq_false ho
        have hsame : held (update fs.disk idb idbuf) node (.indirect k') =
            held fs.disk node (.indirect k') := rfl
        cases hk' : held fs.disk node (.indirect k') with
        | none => rw [held_entry_none hk',held_entry_none (hsame.trans hk')]
        | some c =>
          have hc : c ≠ idb := by
            rintro rfl
            exact hne (Owner.indirect.inj (hs.ledger.inj _ _ c hk' hi))
          rw [held_entry hk',held_entry (hsame.trans hk'),update_of_ne hc]
    refine ⟨hheld,?_⟩
    unfold cell Ledger.cell
    rw [hheld]
    cases hb : held fs.disk node o with
    | none => rfl
    | some b =>
      have hne : b ≠ idb := by
        rintro rfl
        have hos := hs.ledger.inj _ _ b hb hi
        rw [hos] at ho
        simp [Owner.isData] at ho
      rw [Option.elim_some,Option.elim_some,update_of_ne hne]

theorem truncIndirect_spec (hs : Sound lost fs node) (hk : node sv.ino = some sv.inode)
    (blocklen : Nat) :
    ∃ fs' sv', truncIndirect cur fs sv blocklen = .ok (none, fs', sv') ∧
      Edits lost fs node sv fs' sv' ∧ sv'.inode.direct = sv.inode.direct ∧
      (blocklen = 0 → sv'.inode.indirect = 0) := by
  dsimp only [truncIndirect,Device.fs,Device.setFs]
  by_cases hcond : blocklen < 15 + 128 - 1 ∧ sv.inode.indirect ≠ 0
  · have hi : held fs.disk node (.indirect sv.ino) = some sv.inode.indirect := by
      rw [held_indirect hk,ref_of_ne_zero hcond.2]
    rw [if_pos hcond]
    generalize sv.inode.indirect = idb at hi hcond ⊢
    have hstart : Sound lost (fs.store idb (fs.disk idb)) node := by rwa [store_self]
    obtain ⟨fs₁,tr,hrun,hframe,hs₁,ht⟩ :=
      @truncEntries_spec lost fs node sv.ino idb ⟨fs.disk idb,false,false⟩ hstart hi blocklen
        (List.finRange 128)
    have hdisk : fs₁.disk = fs.disk := by rw [hframe]
    have hi₁ : held (fs₁.store idb tr.idbuf).disk node (.indirect sv.ino) = some idb := hi
    have hreach : fs₁.Reaches idb :=
      ⟨(hs₁.held_reaches hi₁).small,(hs₁.held_reaches hi₁).lt⟩
    have hstore : Edits lost fs node sv (fs₁.store idb tr.idbuf) sv := by
      refine edits_of_disk hk hi hs tr.idbuf ?_ ?_ hs₁
      · rw [hframe]
        rfl
      · dsimp only [Fs.store]
        rw [hdisk]
    rw [rblock_eq (hs.held_reaches hi),ok_bind]
    dsimp only
    rw [hrun,ok_bind]
    by_cases hempty : tr.hasnonzero = false
    · rw [if_pos hempty]
      have hzero (j : Fin 128) : held (fs₁.store idb tr.idbuf).disk node (.entry sv.ino j) = none := by
        rw [held_entry hi₁]
        dsimp only [Fs.store]
        rw [update_self,(ht.empty hempty).2 j (List.mem_finRange j),ref_zero]
      have hheld := @held_clear_indirect (fs₁.store idb tr.idbuf) node sv hk hzero fs₁.disk
        fun k' j hne => by
          have hkept := (hstore.kept (.entry k' j) (decide_eq_false hne)).1
          rw [put_self hk] at hkept
          rw [hkept,hdisk]
      have hs₂ : Sound lost (fs₁.drop idb) (node.put (sv.setIndirect 0)) := by
        refine ⟨hs₁.drop.withDisk fs₁.disk,?_⟩
        have hled := hs₁.ledger.drop hi₁ fun c => @marked_drop (fs₁.store idb tr.idbuf) idb c
        rw [← hheld] at hled
        exact hled
      have hmark : fs₁.marked idb := hs₁.held_marked hi₁
      refine ⟨fs₁.drop idb,sv.setIndirect 0,?_,?_,rfl,fun _ => rfl⟩
      · rw [bfree_eq hmark,ok_bind]
        rfl
      · refine ⟨?_,rfl,fun h => (nomatch h),hs₂,fun o ho => ?_⟩
        · rw [hframe]
          rfl
        · have hne : o ≠ .indirect sv.ino := by
            rintro rfl
            simp [Owner.isData] at ho
          have hkept := (hstore.kept o ho).1
          rw [put_self hk] at hkept
          have hsame : held (fs₁.drop idb).disk (node.put (sv.setIndirect 0)) o =
              held fs.disk node o := by
            rw [← hkept]
            exact (congrFun hheld o).trans (update_of_ne hne ..)
          refine ⟨hsame,?_⟩
          unfold cell Ledger.cell
          rw [hsame]
          exact congrArg _ hdisk
    · rw [if_neg hempty]
      have hbl : blocklen ≠ 0 := fun hb => hempty (ht.whole hb)
      by_cases hdirty : tr.iddirty = true
      · rw [if_pos hdirty,wblock_eq hreach,ok_bind]
        exact ⟨_,sv,rfl,hstore,rfl,fun hb => absurd hb hbl⟩
      · rw [if_neg hdirty]
        have hbuf := (ht.untouched (Bool.eq_false_iff.mpr hdirty)).2
        have hback : fs₁.store idb tr.idbuf = fs₁ := by
          rw [hbuf,← hdisk,store_self]
        rw [hback] at hstore
        exact ⟨fs₁,sv,rfl,hstore,rfl,fun hb => absurd hb hbl⟩
  · rw [if_neg hcond]
    refine ⟨fs,sv,rfl,.refl hs hk,rfl,fun hb => ?_⟩
    by_contra hne
    exact hcond ⟨by omega,hne⟩

variable (cur) in
theorem truncate_spec (hs : Sound lost fs node) (hk : node sv.ino = some sv.inode) (len : Int) :
    ∃ fs' sv', truncate cur fs sv len = .ok (none, fs', sv') ∧ Edits lost fs node sv fs' sv' ∧
      sv'.inode.size = u32 len ∧
      (len = 0 → (∀ i, sv'.inode.direct i = 0) ∧ sv'.inode.indirect = 0) := by
  dsimp only [truncate,Device.fs,Device.setFs]
  generalize hb : u32 ((offT (len + 511)).tdiv 512) = blocklen
  obtain ⟨fs₁,sv₁,hrun₁,he₁,hind,-,hall⟩ :=
    truncDirect_spec hs hk blocklen (List.finRange 15)
  obtain ⟨fs₂,sv₂,hrun₂,he₂,hdir,hnone⟩ :=
    @truncIndirect_spec cur lost fs₁ _ sv₁ he₁.sound (put_apply node sv₁) blocklen
  have he₁₂ := he₁.trans he₂
  have he₃ := edits_resize he₁₂.sound (put_apply node sv₂) (u32 len)
  refine ⟨fs₂,sv₂.resize (u32 len),?_,he₁₂.trans he₃,rfl,fun hlen => ?_⟩
  · rw [hrun₁,ok_bind]
    rw [hrun₂,ok_bind]
    rfl
  · have hzero : blocklen = 0 := by
      rw [← hb,hlen]
      rfl
    refine ⟨fun i => ?_,hnone hzero⟩
    exact (congrFun hdir i).trans (hall hzero i (List.mem_finRange i))

end Entries

end OS161.Sfs
