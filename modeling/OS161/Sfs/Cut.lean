import OS161.Sfs.Truncate

namespace OS161.Sfs

structure Trims (blocklen : Nat) (l : List (Fin 128)) (tr tr' : Trimming) : Prop where
  entry : ∀ j : Fin 128,
    idEntry tr'.idbuf j = if j ∈ l ∧ blocklen < 15 + j then 0 else idEntry tr.idbuf j
  hasnonzero : tr'.hasnonzero = true ↔
    tr.hasnonzero = true ∨ ∃ j ∈ l, ¬ blocklen < 15 + j ∧ idEntry tr.idbuf j ≠ 0
  iddirty : tr'.iddirty = true ↔
    tr.iddirty = true ∨ ∃ j ∈ l, blocklen < 15 + j ∧ idEntry tr.idbuf j ≠ 0

section
variable {blocklen : Nat} {fs fs' : Fs} {sv sv' : Sv} {tr tr' : Trimming}

theorem bfree_disk {b : Nat} (h : bfree fs b = .ok fs') : fs'.disk = fs.disk := by
  obtain ⟨-,h₁⟩ := assert_bind_ok h
  obtain ⟨-,h₂⟩ := assert_bind_ok h₁
  cases h₂
  rfl

theorem truncDirect_direct {l : List (Fin 15)}
    (h : truncDirect blocklen l fs sv = .ok (fs', sv')) :
    fs'.disk = fs.disk ∧ ∀ i : Fin 15,
      sv'.inode.direct i = if i ∈ l ∧ blocklen ≤ i then 0 else sv.inode.direct i := by
  induction l generalizing fs sv with
  | nil =>
    cases h
    exact ⟨rfl,fun i => by rw [if_neg fun hi => List.not_mem_nil hi.1]⟩
  | cons i₀ rest ih =>
    rw [truncDirect] at h
    split at h
    case isTrue hi₀ =>
      obtain ⟨fs₁,hfree,hrest⟩ := bind_ok h
      obtain ⟨hdisk,hdirect⟩ := ih hrest
      refine ⟨hdisk.trans (bfree_disk hfree),fun i => ?_⟩
      rw [hdirect]
      rcases eq_or_ne i i₀ with rfl | hne
      · simp [hi₀.1]
      · simp [hne]
    case isFalse hi₀ =>
      obtain ⟨hdisk,hdirect⟩ := ih h
      refine ⟨hdisk,fun i => ?_⟩
      rw [hdirect]
      rcases eq_or_ne i i₀ with rfl | hne
      · by_cases hb : blocklen ≤ i
        · have hz : sv.inode.direct i = 0 := by
            by_contra hnz
            exact hi₀ ⟨hb,hnz⟩
          simp [hz]
        · simp [hb]
      · simp [hne]

theorem truncEntries_trims {l : List (Fin 128)}
    (h : truncEntries blocklen l fs tr = .ok (fs', tr')) : Trims blocklen l tr tr' := by
  induction l generalizing fs tr with
  | nil =>
    cases h
    exact ⟨by simp,by simp,by simp⟩
  | cons j₀ rest ih =>
    rw [truncEntries] at h
    split at h
    case isTrue hj₀ =>
      obtain ⟨fs₁,-,hrest⟩ := bind_ok h
      have ht := ih hrest
      have hself : idEntry (setEntry tr.idbuf j₀ 0) j₀ = 0 :=
        idEntry_setEntry_self j₀.isLt (by decide)
      have hother {j : Fin 128} (hne : j ≠ j₀) :
          idEntry (setEntry tr.idbuf j₀ 0) j = idEntry tr.idbuf j :=
        idEntry_setEntry_of_ne j.isLt fun heq => hne (Fin.ext heq)
      refine ⟨fun j => ?_,ht.hasnonzero.trans (or_congr_right ⟨?_,?_⟩),?_⟩
      · rw [ht.entry j]
        rcases eq_or_ne j j₀ with rfl | hne
        · simp [hself,hj₀.1]
        · simp [hother hne,hne]
      · rintro ⟨j,hmem,hkeep,hnz⟩
        have hne : j ≠ j₀ := by
          rintro rfl
          exact hkeep hj₀.1
        exact ⟨j,List.mem_cons_of_mem _ hmem,hkeep,by rwa [← hother hne]⟩
      · rintro ⟨j,hmem,hkeep,hnz⟩
        have hne : j ≠ j₀ := by
          rintro rfl
          exact hkeep hj₀.1
        exact ⟨j,List.mem_of_ne_of_mem hne hmem,hkeep,by rwa [hother hne]⟩
      · rw [ht.iddirty]
        simp only [true_or,true_iff]
        exact .inr ⟨j₀,List.mem_cons_self,hj₀⟩
    case isFalse hj₀ =>
      have ht := ih h
      refine ⟨fun j => ?_,ht.hasnonzero.trans ?_,ht.iddirty.trans (or_congr_right ?_)⟩
      · rw [ht.entry j]
        rcases eq_or_ne j j₀ with rfl | hne
        · by_cases hb : blocklen < 15 + j
          · have hz : idEntry tr.idbuf j = 0 := by
              by_contra hnz
              exact hj₀ ⟨hb,hnz⟩
            simp [hz]
          · simp [hb]
        · simp [hne]
      · simp only [Bool.or_eq_true,decide_eq_true_iff,List.mem_cons,exists_eq_or_imp]
        constructor
        · rintro ((hn | hnz) | hrest)
          · exact .inl hn
          · exact .inr (.inl ⟨fun hb => hj₀ ⟨hb,hnz⟩,hnz⟩)
          · exact .inr (.inr hrest)
        · rintro (hn | ⟨-,hnz⟩ | hrest)
          · exact .inl (.inl hn)
          · exact .inl (.inr hnz)
          · exact .inr hrest
      · simp only [List.mem_cons,exists_eq_or_imp]
        exact ⟨.inr,fun hrest => hrest.resolve_left hj₀⟩

end

def cut (n ino : Nat) (p : Owner → Option Nat) : Owner → Option Nat
  | .ino k => p (.ino k)
  | .direct k i => if k = ino ∧ n ≤ i then none else p (.direct k i)
  | .indirect k =>
    if k = ino ∧ n < 142 ∧ ∀ j : Fin 128, n < 15 + j ∨ p (.entry k j) = none then none
    else p (.indirect k)
  | .entry k j => if k = ino ∧ n < 15 + j then none else p (.entry k j)

theorem cut_of_le {n : Nat} (hn : 142 ≤ n) (ino : Nat) (p : Owner → Option Nat) :
    cut n ino p = p := by
  funext o
  cases o with
  | ino k => rfl
  | direct k i | indirect k | entry k j => exact if_neg (by omega)

structure EntriesCut (lost : Nat → Prop) (fs : Fs) (node : Nodes) (idb blocklen : Nat) (fs₁ : Fs)
    (tr : Trimming) : Prop where
  frame : fs₁ = { fs with freemap := fs₁.freemap }
  sound : Sound lost (fs₁.store idb tr.idbuf) node
  trims : Trims blocklen (List.finRange 128) ⟨fs.disk idb, false, false⟩ tr

section Exact
variable {cur : Curthread} {lost : Nat → Prop} {fs fs' : Fs} {node : Nodes} {sv sv' : Sv}
  {blocklen idb : Nat}

theorem truncEntries_cut {k : Nat} (hs : Sound lost fs node)
    (hi : held fs.disk node (.indirect k) = some idb) (blocklen : Nat) :
    ∃ fs₁ tr, truncEntries blocklen (List.finRange 128) fs ⟨fs.disk idb, false, false⟩ =
        .ok (fs₁, tr) ∧ EntriesCut lost fs node idb blocklen fs₁ tr := by
  have hstart : Sound lost (fs.store idb (fs.disk idb)) node := by rwa [store_self]
  obtain ⟨fs₁,tr,hrun,hframe,hs₁,-⟩ :=
    @truncEntries_spec lost fs node k idb ⟨fs.disk idb,false,false⟩ hstart hi blocklen
      (List.finRange 128)
  exact ⟨fs₁,tr,hrun,hframe,hs₁,truncEntries_trims hrun⟩

theorem truncIndirect_entry (hs : Sound lost fs node) (hk : node sv.ino = some sv.inode)
    (h : truncIndirect cur fs sv blocklen = .ok (none, fs', sv')) :
    (sv' = sv ∨ sv' = sv.setIndirect 0) ∧
    (∀ j : Fin 128, held fs'.disk (node.put sv') (.entry sv.ino j) =
      if blocklen < 15 + j then none else held fs.disk node (.entry sv.ino j)) ∧
    held fs'.disk (node.put sv') (.indirect sv.ino) =
      if blocklen < 142 ∧ ∀ j : Fin 128,
          blocklen < 15 + j ∨ held fs.disk node (.entry sv.ino j) = none then none
      else held fs.disk node (.indirect sv.ino) := by
  dsimp only [truncIndirect,Device.fs,Device.setFs] at h
  by_cases hcond : blocklen < 15 + 128 - 1 ∧ sv.inode.indirect ≠ 0
  · have hi : held fs.disk node (.indirect sv.ino) = some sv.inode.indirect := by
      rw [held_indirect hk,ref_of_ne_zero hcond.2]
    have hent (j : Fin 128) : held fs.disk node (.entry sv.ino j) =
        ref (idEntry (fs.disk sv.inode.indirect) j) := held_entry hi j
    obtain ⟨fs₁,tr,hrun,hframe,hs₁,ht⟩ := truncEntries_cut hs hi blocklen
    have hdisk : fs₁.disk = fs.disk := by rw [hframe]
    rw [if_pos hcond,rblock_eq (hs.held_reaches hi),ok_bind] at h
    dsimp only at h
    rw [hrun,ok_bind] at h
    by_cases hempty : tr.hasnonzero = false
    · rw [if_pos hempty] at h
      obtain ⟨fs₂,-,hret⟩ := bind_ok h
      cases hret
      have hgone (j : Fin 128) : blocklen < 15 + j ∨ held fs.disk node (.entry sv.ino j) = none := by
        by_contra hleft
        obtain ⟨hb,hheld⟩ := not_or.mp hleft
        rw [hent,ref_eq_none] at hheld
        have hflag := ht.hasnonzero.mpr (.inr ⟨j,List.mem_finRange j,hb,hheld⟩)
        rw [hempty] at hflag
        cases hflag
      have hnone : held fs'.disk (node.put (sv.setIndirect 0)) (.indirect sv.ino) = none := by
        have hput := @held_indirect fs'.disk _ _ _ (put_apply node (sv.setIndirect 0))
        exact hput
      refine ⟨.inr rfl,fun j => ?_,?_⟩
      · have hentry : held fs'.disk (node.put (sv.setIndirect 0)) (.entry sv.ino j) = none :=
          held_entry_none hnone j
        split
        · exact hentry
        · exact hentry.trans ((hgone j).resolve_left ‹_›).symm
      · rw [if_pos ⟨hcond.1,hgone⟩]
        exact hnone
    · rw [if_neg hempty] at h
      obtain ⟨j₀,-,hb₀,hnz⟩ :=
        (ht.hasnonzero.mp (Bool.not_eq_false _ ▸ hempty)).resolve_left (by simp)
      have hsome : ¬ ∀ j : Fin 128, blocklen < 15 + j ∨ held fs.disk node (.entry sv.ino j) = none :=
        fun hall => by
          rcases hall j₀ with hb | hnone
          · exact hb₀ hb
          · rw [hent,ref_eq_none] at hnone
            exact hnz hnone
      have hreach : fs₁.Reaches sv.inode.indirect := by
        have h₀ := hs.held_reaches hi
        exact ⟨h₀.small,by rw [hframe]; exact h₀.lt⟩
      have hout : sv' = sv ∧ ∀ j : Fin 128, idEntry (fs'.disk sv.inode.indirect) j =
          if blocklen < 15 + j then 0 else idEntry (fs.disk sv.inode.indirect) j := by
        by_cases hdirty : tr.iddirty = true
        · rw [if_pos hdirty,wblock_eq hreach,ok_bind] at h
          cases h
          refine ⟨rfl,fun j => ?_⟩
          dsimp only
          rw [Function.update_self,ht.entry j]
          simp
        · rw [if_neg hdirty] at h
          cases h
          refine ⟨rfl,fun j => ?_⟩
          rw [hdisk]
          split
          · by_contra hne
            exact hdirty (ht.iddirty.mpr (.inr ⟨j,List.mem_finRange j,‹_›,hne⟩))
          · rfl
      obtain ⟨rfl,hbuf⟩ := hout
      rw [put_self hk,if_neg fun hc => hsome hc.2]
      have hi' : held fs'.disk node (.indirect sv'.ino) = some sv'.inode.indirect := hi
      refine ⟨.inl rfl,fun j => ?_,rfl⟩
      rw [held_entry hi',hbuf,hent]
      split <;> rfl
  · rw [if_neg hcond] at h
    cases h
    rw [put_self hk]
    by_cases hb : blocklen < 142
    · have hnone : held fs.disk node (.indirect sv.ino) = none := by
        rw [held_indirect hk,ref_eq_none]
        by_contra hne
        exact hcond ⟨hb,hne⟩
      refine ⟨.inl rfl,fun j => ?_,?_⟩
      · rw [held_entry_none hnone,ite_self]
      · rw [hnone,ite_self]
    · refine ⟨.inl rfl,fun j => ?_,?_⟩
      · rw [if_neg (by omega)]
      · rw [if_neg fun hc => hb hc.1]

theorem cut_blocklen {len : Nat} (hlen : len < 2 ^ 31) (ino : Nat) (p : Owner → Option Nat) :
    cut (u32 ((offT ((len : Int) + 511)).tdiv 512)) ino p = cut ((len + 511) / 512) ino p := by
  by_cases hfit : len + 511 < 2 ^ 31
  · have hoff : offT ((len : Int) + 511) = ((len + 511 : Nat) : Int) :=
      offT_of_lt (by omega) (by omega)
    have hdiv : (((len + 511 : Nat) : Int)).tdiv 512 = ((len + 511) / 512 : Nat) := rfl
    rw [hoff,hdiv,u32_of_nat (by omega)]
  · have hneg : offT ((len : Int) + 511) = -((2 ^ 32 - 511 - len : Nat) : Int) := by
      unfold offT
      rw [Int.bmod_def]
      split <;> omega
    have hdiv : ((2 ^ 32 - 511 - len : Nat) : Int).tdiv 512 =
        ((2 ^ 32 - 511 - len) / 512 : Nat) := rfl
    have hlong : 142 ≤ u32 ((offT ((len : Int) + 511)).tdiv 512) := by
      rw [hneg,Int.neg_tdiv,hdiv]
      unfold u32
      omega
    rw [cut_of_le hlong,cut_of_le (by omega)]

variable (cur) in
theorem truncate_cut (hs : Sound lost fs node) (hk : node sv.ino = some sv.inode) {len : Nat}
    (hlen : len < 2 ^ 31) :
    ∃ fs' sv', truncate cur fs sv len = .ok (none, fs', sv') ∧ Edits lost fs node sv fs' sv' ∧
      sv'.inode.size = len ∧
      held fs'.disk (node.put sv') = cut ((len + 511) / 512) sv.ino (held fs.disk node) := by
  rw [← cut_blocklen hlen]
  dsimp only [truncate,Device.fs,Device.setFs]
  generalize u32 ((offT ((len : Int) + 511)).tdiv 512) = blocklen
  obtain ⟨fs₁,sv₁,hrun₁,he₁,hind,-,-⟩ :=
    truncDirect_spec hs hk blocklen (List.finRange 15)
  obtain ⟨fs₂,sv₂,hrun₂,he₂,hdir,-⟩ :=
    @truncIndirect_spec cur lost fs₁ _ sv₁ he₁.sound (put_apply node sv₁) blocklen
  obtain ⟨hdisk,hdirect⟩ := truncDirect_direct hrun₁
  obtain ⟨-,hentry,hindirect⟩ :=
    @truncIndirect_entry cur lost fs₁ fs₂ _ sv₁ sv₂ blocklen he₁.sound (put_apply node sv₁) hrun₂
  have he₁₂ := he₁.trans he₂
  have he₃ := edits_resize he₁₂.sound (put_apply node sv₂) (u32 len)
  have he := he₁₂.trans he₃
  refine ⟨fs₂,sv₂.resize (u32 len),?_,he,u32_of_nat (by omega),?_⟩
  · rw [hrun₁,ok_bind]
    rw [hrun₂,ok_bind]
    rfl
  · have hino₁ := he₁.ino
    have hino₂ := he₁₂.ino
    have hsame : held fs₂.disk (node.put (sv₂.resize (u32 len))) = held fs₂.disk (node.put sv₂) := by
      have h := @held_put_eq fs₂.disk (node.put sv₂) sv₂.inode (sv₂.resize (u32 len))
        (put_apply node sv₂) rfl rfl
      rwa [@put_put node sv₂ (sv₂.resize (u32 len)) rfl] at h
    have hold : held fs₁.disk (node.put sv₁) (.indirect sv.ino) =
        held fs.disk node (.indirect sv.ino) := by
      rw [held_indirect hk,← hind,← hino₁,held_indirect (put_apply node sv₁)]
    have hold' (j : Fin 128) : held fs₁.disk (node.put sv₁) (.entry sv.ino j) =
        held fs.disk node (.entry sv.ino j) := by
      cases hi : held fs.disk node (.indirect sv.ino) with
      | none => rw [held_entry_none hi,held_entry_none (hold.trans hi)]
      | some b => rw [held_entry hi,held_entry (hold.trans hi),hdisk]
    rw [put_put he₂.ino,hino₁] at hentry hindirect
    simp only [hold'] at hentry hindirect
    rw [hold] at hindirect
    rw [hsame]
    funext o
    cases o with
    | ino k => exact (he₁₂.kept (.ino k) rfl).1
    | direct k i =>
      rcases eq_or_ne k sv.ino with rfl | hne
      · have hself : node.put sv₂ sv.ino = some sv₂.inode := by rw [← hino₂,put_apply]
        rw [held_direct hself,hdir,hdirect,cut,held_direct hk]
        simp only [List.mem_finRange,true_and]
        split <;> rfl
      · rw [(he₁₂.kept (.direct k i) (decide_eq_false hne)).1]
        exact (if_neg fun h => hne h.1).symm
    | indirect k =>
      rcases eq_or_ne k sv.ino with rfl | hne
      · rw [hindirect,cut]
        simp only [true_and]
      · rw [(he₁₂.kept (.indirect k) (decide_eq_false hne)).1]
        exact (if_neg fun h => hne h.1).symm
    | entry k j =>
      rcases eq_or_ne k sv.ino with rfl | hne
      · rw [hentry,cut]
        simp only [true_and]
      · rw [(he₁₂.kept (.entry k j) (decide_eq_false hne)).1]
        exact (if_neg fun h => hne h.1).symm

end Exact

def Maps (cur : Curthread) (fs : Fs) (sv : Sv) (k b : Nat) : Prop :=
  bmap cur fs sv k false = .ok (.ok b, fs, sv)

structure CutTo (cur : Curthread) (fs : Fs) (sv : Sv) (len : Nat) (fs' : Fs) (sv' : Sv) : Prop where
  size : sv'.inode.size = len
  kept : ∀ k b, k < (len + 511) / 512 → (Maps cur fs' sv' k b ↔ Maps cur fs sv k b)
  gone : ∀ k, (len + 511) / 512 ≤ k → k < 143 → Maps cur fs' sv' k 0
  freed : ∀ b, fs'.marked b ↔ fs.marked b ∧ ¬ (b ≠ 0 ∧
    ((∃ k, (len + 511) / 512 ≤ k ∧ Maps cur fs sv k b) ∨
      b = sv.inode.indirect ∧ ∀ k, 15 ≤ k → k < 143 → Maps cur fs' sv' k 0))

def CutsCleanly (cur : Curthread) (fs : Fs) (sv : Sv) (n : Nat) : Prop :=
  (15 ≤ n → n < 143 → Maps cur fs sv n 0) ∧
  (142 ≤ n → sv.inode.indirect ≠ 0 → ∃ k b, 15 ≤ k ∧ b ≠ 0 ∧ Maps cur fs sv k b)

section
variable {cur : Curthread} {lost : Nat → Prop} {fs fs' : Fs} {node : Nodes} {sv sv' : Sv}
  {k b n : Nat}

theorem maps_slot (hs : Sound lost fs node) (hk : node sv.ino = some sv.inode) {o : Owner}
    (ho : fileSlot sv.ino k = some o) :
    Maps cur fs sv k b ↔ held fs.disk node o = ref b := by
  unfold Maps
  rw [bmap_read hs hk ho]
  cases hp : held fs.disk node o with
  | none =>
    rw [@eq_comm _ none,ref_eq_none]
    simp [eq_comm]
  | some c =>
    have hc := hs.held_ne_zero hp
    rw [@eq_comm _ (some c),ref_eq_some]
    simp [eq_comm,hc]

theorem maps_beyond (hk : 143 ≤ k) : ¬ Maps cur fs sv k b := by
  unfold Maps
  rw [bmap_beyond cur fs sv hk]
  intro h
  cases h

theorem maps_unique {c : Nat} (hb : Maps cur fs sv k b) (hc : Maps cur fs sv k c) : b = c := by
  unfold Maps at hb hc
  rw [hb] at hc
  cases hc
  rfl

theorem maps_lt (h : Maps cur fs sv k b) : k < 143 := by
  by_contra hge
  exact maps_beyond (Nat.le_of_not_lt hge) h

theorem cut_slot {ino : Nat} {o : Owner} (ho : fileSlot ino k = some o) (p : Owner → Option Nat) :
    cut n ino p o = if k < 15 ∧ n ≤ k ∨ n < k then none else p o := by
  unfold fileSlot at ho
  split at ho
  case isTrue hd =>
    cases ho
    simp only [cut,true_and,hd]
    exact if_congr (by omega) rfl rfl
  case isFalse hd =>
    split at ho
    case isTrue hj =>
      cases ho
      simp only [cut,true_and]
      exact if_congr (by omega) rfl rfl
    case isFalse => cases ho

theorem cut_sub (n ino : Nat) (p : Owner → Option Nat) (o : Owner) :
    cut n ino p o = p o ∨ cut n ino p o = none := by
  cases o with
  | ino k => exact .inl rfl
  | direct k i | indirect k | entry k j =>
    unfold cut
    dsimp only
    split
    · exact .inr rfl
    · exact .inl rfl

theorem exists_slot_direct (ino : Nat) (i : Fin 15) : fileSlot ino i = some (.direct ino i) :=
  dif_pos i.isLt

theorem exists_slot_entry (ino : Nat) (j : Fin 128) :
    fileSlot ino (15 + j) = some (.entry ino j) := by
  unfold fileSlot
  rw [dif_neg (by omega),dif_pos (by omega)]
  simp

end

section
variable {cur : Curthread} {lost : Nat → Prop} {fs fs' : Fs} {node : Nodes} {sv sv' : Sv}
  {len n : Nat}
  (he : Edits lost fs node sv fs' sv')
  (hcut : held fs'.disk (node.put sv') = cut n sv.ino (held fs.disk node))
include he hcut

theorem maps_cut {k b : Nat} {o : Owner} (ho : fileSlot sv.ino k = some o) :
    Maps cur fs' sv' k b ↔
      (if k < 15 ∧ n ≤ k ∨ n < k then none else held fs.disk node o) = ref b := by
  rw [← he.ino] at ho
  rw [maps_slot he.sound (put_apply node sv') ho,hcut,cut_slot (he.ino ▸ ho)]

theorem maps_cut_kept (hs : Sound lost fs node) (hk : node sv.ino = some sv.inode) {k b : Nat}
    (hkeep : ¬ (k < 15 ∧ n ≤ k ∨ n < k)) :
    Maps cur fs' sv' k b ↔ Maps cur fs sv k b := by
  by_cases hlt : k < 143
  · obtain ⟨o,ho⟩ := @exists_fileSlot sv.ino k hlt
    rw [maps_cut he hcut ho,if_neg hkeep,maps_slot hs hk ho]
  · have hge := Nat.le_of_not_lt hlt
    exact iff_of_false (maps_beyond hge) (maps_beyond hge)

theorem maps_cut_gone {k : Nat} (hgone : k < 15 ∧ n ≤ k ∨ n < k) (hlt : k < 143) :
    Maps cur fs' sv' k 0 := by
  obtain ⟨o,ho⟩ := @exists_fileSlot sv.ino k hlt
  rw [maps_cut he hcut ho,if_pos hgone,ref_zero]

theorem marked_cut (hs : Sound lost fs node) (b : Nat) :
    fs'.marked b ↔ fs.marked b ∧
      ¬ ∃ o, held fs.disk node o = some b ∧ cut n sv.ino (held fs.disk node) o = none := by
  have hled := he.sound.ledger
  have hfix : fs'.fixed = fs.fixed := by
    rw [he.frame]
    rfl
  rw [hcut,hfix] at hled
  exact hs.ledger.shrink hled (cut_sub n sv.ino _) b

theorem excess_iff (hs : Sound lost fs node) (hk : node sv.ino = some sv.inode)
    (hclean : CutsCleanly cur fs sv n) (b : Nat) :
    (∃ o, held fs.disk node o = some b ∧ cut n sv.ino (held fs.disk node) o = none) ↔
      b ≠ 0 ∧ ((∃ k, n ≤ k ∧ Maps cur fs sv k b) ∨
        b = sv.inode.indirect ∧ ∀ k, 15 ≤ k → k < 143 → Maps cur fs' sv' k 0) := by
  have hindirect : held fs.disk node (.indirect sv.ino) = ref sv.inode.indirect := held_indirect hk
  constructor
  · rintro ⟨o,ho,hnone⟩
    have hb := hs.held_ne_zero ho
    have hslot {k : Nat} (hk' : fileSlot sv.ino k = some o) : Maps cur fs sv k b := by
      rw [maps_slot hs hk hk',ho,ref_of_ne_zero hb]
    refine ⟨hb,?_⟩
    cases o with
    | ino k =>
      rw [cut,ho] at hnone
      cases hnone
    | direct k i =>
      rw [cut,ho,ite_eq_left_iff] at hnone
      obtain ⟨rfl,hi⟩ : k = sv.ino ∧ n ≤ i := by
        by_contra hc
        cases hnone hc
      exact .inl ⟨i,hi,hslot (exists_slot_direct _ i)⟩
    | entry k j =>
      rw [cut,ho,ite_eq_left_iff] at hnone
      obtain ⟨rfl,hj⟩ : k = sv.ino ∧ n < 15 + j := by
        by_contra hc
        cases hnone hc
      exact .inl ⟨15 + j,hj.le,hslot (exists_slot_entry _ j)⟩
    | indirect k =>
      rw [cut,ho,ite_eq_left_iff] at hnone
      obtain ⟨rfl,-,hgone⟩ : k = sv.ino ∧ n < 142 ∧
          ∀ j : Fin 128, n < 15 + j ∨ held fs.disk node (.entry k j) = none := by
        by_contra hc
        cases hnone hc
      rw [hindirect,ref_eq_some] at ho
      refine .inr ⟨ho.1.symm,fun k hk₁ hk₂ => ?_⟩
      have hslot' := exists_slot_entry sv.ino ⟨k - 15,by omega⟩
      have hkj : 15 + (k - 15) = k := by omega
      rw [hkj] at hslot'
      rw [maps_cut he hcut hslot',ref_zero,ite_eq_left_iff]
      intro hkeep
      exact (hgone ⟨k - 15,by omega⟩).resolve_left (by dsimp only; omega)
  · rintro ⟨hb,⟨k,hkn,hmap⟩ | ⟨rfl,hall⟩⟩
    · have hlt := maps_lt hmap
      obtain ⟨o,ho⟩ := @exists_fileSlot sv.ino k hlt
      have hheld : held fs.disk node o = some b := by
        rw [(maps_slot hs hk ho).mp hmap,ref_of_ne_zero hb]
      refine ⟨o,hheld,?_⟩
      have hpast : k < 15 ∧ n ≤ k ∨ n < k := by
        by_contra hc
        obtain rfl : k = n := by omega
        have hz := (maps_slot hs hk ho).mp (hclean.1 (by omega) hlt)
        rw [hheld] at hz
        cases hz
      rw [cut_slot ho,if_pos hpast]
    · have hsome : held fs.disk node (.indirect sv.ino) = some sv.inode.indirect := by
        rw [hindirect,ref_of_ne_zero hb]
      have hempty (j : Fin 128) : n < 15 + j ∨ held fs.disk node (.entry sv.ino j) = none := by
        have hz := (maps_cut he hcut (exists_slot_entry sv.ino j)).mp (hall (15 + j) (by omega) (by omega))
        by_cases hj : n < 15 + j
        · exact .inl hj
        · rw [if_neg (by omega)] at hz
          exact .inr hz
      refine ⟨.indirect sv.ino,hsome,if_pos ⟨rfl,?_,hempty⟩⟩
      by_contra hlong
      obtain ⟨k,c,hk₁,hc,hmap⟩ := hclean.2 (Nat.le_of_not_lt hlong) hb
      have hk₂ := maps_lt hmap
      have hstill := (maps_cut_kept he hcut hs hk (by omega)).mpr hmap
      exact hc (maps_unique hstill (hall k hk₁ hk₂))

end

theorem truncate_discards_excess_iff {cur : Curthread} {lost : Nat → Prop} {fs : Fs} {node : Nodes}
    {sv : Sv} (hs : Sound lost fs node) (hk : node sv.ino = some sv.inode) {len : Nat}
    (hlen : len < 2 ^ 31) :
    ∃ fs' sv', truncate cur fs sv len = .ok (none, fs', sv') ∧
      (CutTo cur fs sv len fs' sv' ↔ CutsCleanly cur fs sv ((len + 511) / 512)) := by
  obtain ⟨fs',sv',hrun,he,hsize,hcut⟩ := truncate_cut cur hs hk hlen
  refine ⟨fs',sv',hrun,fun hto => ⟨fun hlo hhi => ?_,fun hlong hne => ?_⟩,fun hclean => ?_⟩
  · exact (maps_cut_kept he hcut hs hk (by omega)).mp (hto.gone _ (Nat.le_refl _) hhi)
  · by_contra hnone
    have hempty (k : Nat) (hk₁ : 15 ≤ k) (hk₂ : k < 143) : Maps cur fs' sv' k 0 := by
      obtain ⟨o,ho⟩ := @exists_fileSlot sv.ino k hk₂
      rw [maps_cut_kept he hcut hs hk (by omega),maps_slot hs hk ho,ref_zero]
      by_contra hsome
      obtain ⟨b,hb⟩ := Option.ne_none_iff_exists'.mp hsome
      have hb₀ := hs.held_ne_zero hb
      exact hnone ⟨k,b,hk₁,hb₀,by rw [maps_slot hs hk ho,hb,ref_of_ne_zero hb₀]⟩
    have hi : held fs'.disk (node.put sv') (.indirect sv.ino) = some sv.inode.indirect := by
      rw [hcut,cut_of_le hlong,held_indirect hk,ref_of_ne_zero hne]
    exact ((hto.freed _).mp (he.sound.held_marked hi)).2 ⟨hne,.inr ⟨rfl,hempty⟩⟩
  · refine ⟨hsize,fun k b hkn => ?_,fun k hkn hlt => ?_,fun b => ?_⟩
    · exact maps_cut_kept he hcut hs hk (by omega)
    · by_cases hpast : k < 15 ∧ (len + 511) / 512 ≤ k ∨ (len + 511) / 512 < k
      · exact maps_cut_gone he hcut hpast hlt
      · obtain rfl : k = (len + 511) / 512 := by omega
        exact (maps_cut_kept he hcut hs hk hpast).mpr (hclean.1 (by omega) hlt)
    · rw [marked_cut he hcut hs,excess_iff he hcut hs hk hclean]

section Instance

def sparse : Sv := ⟨3, ⟨8704, typeFile, 1, fun _ => 0, 4, fun _ => 0⟩, false, 1, 0⟩

def sparseFs : Fs where
  nblocks := 8
  freemap i := if i = 0 then 127 else if i < 512 then 255 else 0
  nbits := 4096
  disk := Function.update (fun _ => zeroBlock) 4 (setEntry (setEntry zeroBlock 0 5) 1 6)
  dBlocks := 8
  vnodes := []

def sparseNode : Nodes := Nodes.put (fun _ => none) sparse

theorem sparse_node : sparseNode sparse.ino = some sparse.inode := put_apply (fun _ => none) sparse

theorem sparse_entry (j : Fin 128) :
    idEntry (sparseFs.disk 4) j = if j = 0 then 5 else if j = 1 then 6 else 0 := by
  have hdisk : sparseFs.disk 4 = setEntry (setEntry zeroBlock 0 5) 1 6 := by
    dsimp only [sparseFs]
    rw [Function.update_self]
  rw [hdisk]
  rcases eq_or_ne j 1 with rfl | h₁
  · exact idEntry_setEntry_self (by decide) (by decide)
  · have hval₁ : (j : Nat) ≠ 1 := fun heq => h₁ (Fin.ext heq)
    rw [idEntry_setEntry_of_ne j.isLt hval₁,if_neg h₁]
    rcases eq_or_ne j 0 with rfl | h₀
    · exact idEntry_setEntry_self (by decide) (by decide)
    · have hval₀ : (j : Nat) ≠ 0 := fun heq => h₀ (Fin.ext heq)
      rw [idEntry_setEntry_of_ne j.isLt hval₀,if_neg h₀,idEntry_zeroBlock]

theorem sparse_held (o : Owner) (b : Nat) :
    held sparseFs.disk sparseNode o = some b ↔
      o = .ino 3 ∧ b = 3 ∨ o = .indirect 3 ∧ b = 4 ∨ o = .entry 3 0 ∧ b = 5 ∨
        o = .entry 3 1 ∧ b = 6 := by
  have hk : sparseNode 3 = some sparse.inode := sparse_node
  have hother {k : Nat} (hne : k ≠ 3) : sparseNode k = none := by
    unfold sparseNode
    exact Function.update_of_ne hne ..
  have hi : held sparseFs.disk sparseNode (.indirect 3) = some 4 := held_indirect hk
  cases o with
  | ino k =>
    rcases eq_or_ne k 3 with rfl | hne
    · simp [held,hk,eq_comm]
    · simp [held,hother hne,hne]
  | direct k i =>
    rcases eq_or_ne k 3 with rfl | hne
    · simp [held,hk,sparse]
    · simp [held,hother hne]
  | indirect k =>
    rcases eq_or_ne k 3 with rfl | hne
    · simp [hi,eq_comm]
    · simp [held,hother hne,hne]
  | entry k j =>
    rcases eq_or_ne k 3 with rfl | hne
    · rw [held_entry hi,sparse_entry,ref_eq_some]
      split <;> grind
    · simp [held,hother hne,hne]

theorem sparse_marked (b : Nat) : sparseFs.marked b ↔ b < 7 ∨ 8 ≤ b ∧ b < 4096 := by
  have hlow : ∀ x < 8, Nat.testBit 127 x = decide (x < 7) := by decide
  have hfull : ∀ x < 8, Nat.testBit 255 x = true := by decide
  unfold Fs.marked Bits.get sparseFs
  dsimp only
  by_cases hb : b < 8
  · rw [if_pos (by omega),hlow _ (by omega),decide_eq_true_iff]
    omega
  · rw [if_neg (by omega)]
    by_cases hend : b / 8 < 512
    · rw [if_pos hend,hfull _ (by omega)]
      simp only [and_true]
      omega
    · exact iff_of_false (by omega) (by omega)

theorem sparse_sound : Sound (· = 1) sparseFs sparseNode := by
  have hblocks : sparseFs.bitblocks = 1 := rfl
  refine ⟨⟨fun i => ?_,rfl,Nat.le_refl _,by decide,by decide⟩,fun b => ?_,fun o b ho => ?_,
    fun o o' b h h' => ?_⟩
  · dsimp only [sparseFs]
    split
    · decide
    · split <;> decide
  · rw [sparse_marked]
    simp only [sparse_held,Fs.fixed,hblocks]
    dsimp only [sparseFs]
    constructor
    · intro hb
      by_cases hold : b = 3 ∨ b = 4 ∨ b = 5 ∨ b = 6
      · refine .inr ?_
        rcases hold with rfl | rfl | rfl | rfl <;> simp
      · exact .inl (by omega)
    · rintro (hb | ⟨o,hb⟩)
      · omega
      · omega
  · rw [sparse_held] at ho
    unfold Fs.fixed
    rw [hblocks]
    dsimp only [sparseFs]
    omega
  · rw [sparse_held] at h h'
    grind

theorem sparse_maps (cur : Curthread) : Maps cur sparseFs sparse 15 5 := by
  have hslot : fileSlot sparse.ino 15 = some (.entry 3 0) := exists_slot_entry 3 0
  rw [maps_slot sparse_sound sparse_node hslot]
  exact (sparse_held _ _).mpr (.inr (.inr (.inl ⟨rfl,rfl⟩)))

theorem truncate_spec_sparse :
    ∃ fs' sv', truncate ⟨none, fun _ _ => none⟩ sparseFs sparse 600 = .ok (none, fs', sv') ∧
      Edits (· = 1) sparseFs sparseNode sparse fs' sv' := by
  obtain ⟨fs',sv',hrun,he,-⟩ :=
    @truncate_spec ⟨none,fun _ _ => none⟩ _ _ _ _ sparse_sound sparse_node 600
  exact ⟨fs',sv',hrun,he⟩

theorem truncate_discards_excess_whole :
    ∃ fs' sv', truncate ⟨none, fun _ _ => none⟩ sparseFs sparse (0 : Nat) = .ok (none, fs', sv') ∧
      CutTo ⟨none, fun _ _ => none⟩ sparseFs sparse 0 fs' sv' := by
  obtain ⟨fs',sv',hrun,hiff⟩ := @truncate_discards_excess_iff ⟨none,fun _ _ => none⟩ _ _ _ _
    sparse_sound sparse_node 0 (by decide)
  exact ⟨fs',sv',hrun,hiff.mpr ⟨fun h => absurd h (by decide),fun h => absurd h (by decide)⟩⟩

theorem truncate_keeps_block_past_end :
    ∃ fs' sv', truncate ⟨none, fun _ _ => none⟩ sparseFs sparse (7680 : Nat) =
        .ok (none, fs', sv') ∧
      Maps ⟨none, fun _ _ => none⟩ fs' sv' 15 5 ∧
      ¬ CutTo ⟨none, fun _ _ => none⟩ sparseFs sparse 7680 fs' sv' := by
  obtain ⟨fs',sv',hrun,he,-,hcut⟩ := @truncate_cut ⟨none,fun _ _ => none⟩ _ _ _ _
    sparse_sound sparse_node 7680 (by decide)
  have hstill : Maps ⟨none,fun _ _ => none⟩ fs' sv' 15 5 :=
    (maps_cut_kept he hcut sparse_sound sparse_node (by decide)).mpr (sparse_maps _)
  refine ⟨fs',sv',hrun,hstill,fun hto => ?_⟩
  have hgone := hto.gone 15 (by decide) (by decide)
  exact absurd (maps_unique hstill hgone) (by decide)

end Instance

end OS161.Sfs
