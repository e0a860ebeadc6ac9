import OS161.Sfs.Owners

namespace OS161.Sfs

def Owner.isData (k : Nat) : Owner → Bool
  | .ino _ => false
  | .direct k' _ | .indirect k' | .entry k' _ => k' = k

def fileSlot (k fileblock : Nat) : Option Owner :=
  if h : fileblock < 15 then some (.direct k ⟨fileblock, h⟩)
  else if h : fileblock - 15 < 128 then some (.entry k ⟨fileblock - 15, h⟩)
  else none

def diskBlock (disk : Nat → Block) (node : Nodes) (k fileblock : Nat) : Option Nat :=
  (fileSlot k fileblock).bind (held disk node)

def fileByte (disk : Nat → Block) (node : Nodes) (k x : Nat) : Byte :=
  match fileSlot k (x / 512) with
  | none => 0
  | some o => (cell disk node o).toMem (x % 512)

section
variable {disk disk' : Nat → Block} {node node' : Nodes} {k k' fb : Nat} {o : Owner}

theorem fileSlot_isData (h : fileSlot k fb = some o) : o.isData k = true := by
  unfold fileSlot at h
  split at h
  · cases h
    exact decide_eq_true rfl
  · split at h
    · cases h
      exact decide_eq_true rfl
    · cases h

theorem isData_of_ne (hne : k' ≠ k) (h : o.isData k' = true) : o.isData k = false := by
  cases o with
  | ino _ => cases h
  | direct k₁ _ | indirect k₁ | entry k₁ _ =>
    have hk : k₁ = k' := of_decide_eq_true h
    exact decide_eq_false (hk ▸ hne)

theorem fileSlot_inj {fb' : Nat} (h : fileSlot k fb = some o) (h' : fileSlot k fb' = some o) :
    fb = fb' := by
  unfold fileSlot at h h'
  grind

theorem fileSlot_none (h : 143 ≤ fb) : fileSlot k fb = none := by
  unfold fileSlot
  rw [dif_neg (by omega),dif_neg (by omega)]

theorem diskBlock_lt {b : Nat} (h : diskBlock disk node k fb = some b) : fb < 143 := by
  by_contra hge
  rw [diskBlock,fileSlot_none (Nat.le_of_not_lt hge)] at h
  cases h

theorem exists_fileSlot (h : fb < 143) : ∃ o, fileSlot k fb = some o := by
  unfold fileSlot
  by_cases hd : fb < 15
  · exact ⟨_,dif_pos hd⟩
  · rw [dif_neg hd,dif_pos (show fb - 15 < 128 by omega)]
    exact ⟨_,rfl⟩

theorem fileByte_congr (h : ∀ o, o.isData k = true → cell disk' node' o = cell disk node o) (x : Nat) :
    fileByte disk' node' k x = fileByte disk node k x := by
  unfold fileByte
  cases ho : fileSlot k (x / 512) with
  | none => rfl
  | some o => simp only [h o (fileSlot_isData ho)]

end

structure Edits (lost : Nat → Prop) (fs : Fs) (node : Nodes) (sv : Sv) (fs' : Fs) (sv' : Sv) :
    Prop where
  frame : fs' = { fs with freemap := fs'.freemap, disk := fs'.disk }
  same : sv' = { sv with
    inode := { sv.inode with
      size := sv'.inode.size, direct := sv'.inode.direct, indirect := sv'.inode.indirect }
    dirty := sv'.dirty }
  clean : sv'.dirty = false → sv' = sv
  sound : Sound lost fs' (node.put sv')
  kept : ∀ o, o.isData sv.ino = false →
    held fs'.disk (node.put sv') o = held fs.disk node o ∧
      cell fs'.disk (node.put sv') o = cell fs.disk node o

structure Writes (lost : Nat → Prop) (d : Nat → Byte) (lo hi : Nat) (fs : Fs) (node : Nodes)
    (sv : Sv) (fs' : Fs) (sv' : Sv) : Prop extends Edits lost fs node sv fs' sv' where
  size : sv'.inode.size = sv.inode.size
  bytes : ∀ x, fileByte fs'.disk (node.put sv') sv.ino x =
    if lo ≤ x ∧ x < hi then d x else fileByte fs.disk node sv.ino x

section Writes
variable {lost : Nat → Prop} {d : Nat → Byte} {lo mid hi : Nat} {fs fs₁ fs₂ : Fs} {node : Nodes}
  {sv sv₁ sv₂ : Sv}

theorem put_self (hk : node sv.ino = some sv.inode) : node.put sv = node := by
  rw [Nodes.put,← hk,Function.update_eq_self]

theorem put_apply (node : Nodes) (sv : Sv) : node.put sv sv.ino = some sv.inode :=
  Function.update_self ..

theorem put_put (h : sv₂.ino = sv₁.ino) : (node.put sv₁).put sv₂ = node.put sv₂ := by
  rw [Nodes.put,Nodes.put,h,Function.update_idem,← h]

theorem Edits.ino (h : Edits lost fs node sv fs₁ sv₁) : sv₁.ino = sv.ino := by
  rw [h.same]

variable (hs : Sound lost fs node) (hk : node sv.ino = some sv.inode)

include hs hk in
theorem Edits.refl : Edits lost fs node sv fs sv := by
  refine ⟨rfl,rfl,fun _ => rfl,?_,fun o _ => ?_⟩
  · rwa [put_self hk]
  · rw [put_self hk]
    exact ⟨rfl,rfl⟩

theorem Edits.trans (h₁ : Edits lost fs node sv fs₁ sv₁)
    (h₂ : Edits lost fs₁ (node.put sv₁) sv₁ fs₂ sv₂) : Edits lost fs node sv fs₂ sv₂ := by
  have hput := @put_put node _ _ h₂.ino
  refine ⟨?_,?_,fun hd => ?_,?_,fun o ho => ?_⟩
  · have hf₁ := h₁.frame
    have hf₂ := h₂.frame
    rw [hf₁] at hf₂
    exact hf₂
  · have hs₁ := h₁.same
    have hs₂ := h₂.same
    rw [hs₁] at hs₂
    exact hs₂
  · have he₂ := h₂.clean hd
    rw [he₂] at hd ⊢
    exact h₁.clean hd
  · rw [← hput]
    exact h₂.sound
  · have hk₁ := h₁.kept o ho
    have hk₂ := h₂.kept o (h₁.ino ▸ ho)
    rw [hput] at hk₂
    exact ⟨hk₂.1.trans hk₁.1,hk₂.2.trans hk₁.2⟩

theorem Edits.elsewhere (h : Edits lost fs node sv fs₁ sv₁) {k : Nat} (hne : k ≠ sv.ino)
    (x : Nat) : fileByte fs₁.disk (node.put sv₁) k x = fileByte fs.disk node k x :=
  fileByte_congr (fun o ho => (h.kept o (isData_of_ne hne ho)).2) x

include hs hk in
theorem Writes.refl : Writes lost d lo lo fs node sv fs sv := by
  refine ⟨.refl hs hk,rfl,fun x => ?_⟩
  rw [put_self hk,if_neg (by omega)]

theorem Writes.trans (h₁ : Writes lost d lo mid fs node sv fs₁ sv₁)
    (h₂ : Writes lost d mid hi fs₁ (node.put sv₁) sv₁ fs₂ sv₂) (hlo : lo ≤ mid) (hhi : mid ≤ hi) :
    Writes lost d lo hi fs node sv fs₂ sv₂ := by
  refine ⟨h₁.toEdits.trans h₂.toEdits,h₂.size.trans h₁.size,fun x => ?_⟩
  have hb₂ := h₂.bytes x
  rw [put_put h₂.ino,h₁.ino] at hb₂
  rw [hb₂,h₁.bytes x]
  by_cases hx : lo ≤ x ∧ x < hi
  · rw [if_pos hx]
    by_cases hmid : mid ≤ x ∧ x < hi
    · rw [if_pos hmid]
    · rw [if_neg hmid,if_pos (by omega)]
  · rw [if_neg hx,if_neg (by omega),if_neg (by omega)]

structure Fills (lost : Nat → Prop) (d : Nat → Byte) (lo hi : Nat) (fs : Fs) (node : Nodes)
    (sv : Sv) (fs' : Fs) (sv' : Sv) : Prop extends Writes lost d lo hi fs node sv fs' sv' where
  keeps : ∀ o b, held fs.disk node o = some b → held fs'.disk (node.put sv') o = some b
  mapped : ∀ x, lo ≤ x → x < hi → ∃ b, diskBlock fs'.disk (node.put sv') sv.ino (x / 512) = some b

include hs hk in
theorem Fills.refl : Fills lost d lo lo fs node sv fs sv := by
  refine ⟨.refl hs hk,fun o b ho => ?_,fun x hlo hhi => by omega⟩
  rwa [put_self hk]

theorem Fills.trans (h₁ : Fills lost d lo mid fs node sv fs₁ sv₁)
    (h₂ : Fills lost d mid hi fs₁ (node.put sv₁) sv₁ fs₂ sv₂) (hlo : lo ≤ mid) (hhi : mid ≤ hi) :
    Fills lost d lo hi fs node sv fs₂ sv₂ := by
  have hput := @put_put node _ _ h₂.ino
  have hkeeps := h₂.keeps
  have hmapped := h₂.mapped
  rw [hput] at hkeeps hmapped
  rw [h₁.ino] at hmapped
  refine ⟨h₁.toWrites.trans h₂.toWrites hlo hhi,fun o b ho => hkeeps o b (h₁.keeps o b ho),
    fun x hx hx' => ?_⟩
  by_cases hmid : x < mid
  · obtain ⟨b,hb⟩ := h₁.mapped x hx hmid
    obtain ⟨o,ho,hb⟩ := Option.bind_eq_some_iff.mp hb
    exact ⟨b,Option.bind_eq_some_iff.mpr ⟨o,ho,hkeeps o b hb⟩⟩
  · exact hmapped x (by omega) hx'

def Sv.resize (sv : Sv) (size : Nat) : Sv :=
  { sv with inode := { sv.inode with size := size }, dirty := true }

include hs hk in
theorem edits_resize (size : Nat) : Edits lost fs node sv fs (sv.resize size) := by
  have hheld : held fs.disk (node.put (sv.resize size)) = held fs.disk node :=
    held_put_eq hk rfl rfl
  refine ⟨rfl,rfl,fun h => (nomatch h),⟨hs.toGeometry,?_⟩,fun o _ => ?_⟩
  · rw [hheld]
    exact hs.ledger
  · unfold cell
    rw [hheld]
    exact ⟨rfl,rfl⟩

theorem held_put_put (h : sv₁.ino = sv₂.ino) (hd : sv₁.inode.direct = sv₂.inode.direct)
    (hi : sv₁.inode.indirect = sv₂.inode.indirect) (disk : Nat → Block) :
    held disk (node.put sv₁) = held disk (node.put sv₂) := by
  have hself : node.put sv₂ sv₁.ino = some sv₂.inode := h ▸ put_apply node sv₂
  have hheld : held disk ((node.put sv₂).put sv₁) = held disk (node.put sv₂) :=
    held_put_eq hself hd hi
  rwa [put_put h] at hheld

theorem fileByte_put (h : sv₁.ino = sv₂.ino) (hd : sv₁.inode.direct = sv₂.inode.direct)
    (hi : sv₁.inode.indirect = sv₂.inode.indirect) (disk : Nat → Block) (k : Nat) :
    fileByte disk (node.put sv₁) k = fileByte disk (node.put sv₂) k := by
  funext x
  refine fileByte_congr (fun o _ => ?_) x
  unfold cell
  rw [held_put_put h hd hi]

end Writes

end OS161.Sfs
