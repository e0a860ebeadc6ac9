import OS161.Lib.Refine
import OS161.Sfs.Format

namespace OS161.Sfs

def bitmapMark (fs : Fs) (index : Nat) : Kern Fs := do
  assert (index < fs.nbits) "index < b->nbits"
  assert (!Bits.get 8 fs.freemap index) "(b->v[ix] & mask)==0"
  .ok { fs with freemap := Bits.raise fs.freemap (index / 8) (index % 8) }

def bitmapIsset (fs : Fs) (index : Nat) : Nat := fs.freemap (index / 8) &&& 2 ^ (index % 8)

inductive BitmapOp where
  | alloc
  | mark (index : Nat)
  | unmark (index : Nat)
  | isset (index : Nat)
  deriving DecidableEq, Repr

inductive BitmapReply where
  | index (i : Nat)
  | enospc
  | done
  | value (v : Nat)
  deriving DecidableEq, Repr

namespace BitmapOp

def run (fs : Fs) : BitmapOp → Kern (BitmapReply × Fs)
  | .alloc => do
    match ← bitmapAlloc fs with
    | (.ok i, fs) => .ok (.index i, fs)
    | (.error _, fs) => .ok (.enospc, fs)
  | .mark i => do .ok (.done, ← bitmapMark fs i)
  | .unmark i => do .ok (.done, ← bitmapUnmark fs i)
  | .isset i => .ok (.value (bitmapIsset fs i), fs)

def Allowed (nbits : Nat) (set : Set Nat) : BitmapOp → Prop
  | .alloc => True
  | .mark i => i < nbits ∧ i ∉ set
  | .unmark i => i ∈ set
  | .isset i => i < nbits

def Ideal (nbits : Nat) (set : Set Nat) (r : BitmapReply) (set' : Set Nat) : BitmapOp → Prop
  | .alloc =>
    (r = .enospc ∧ (∀ i < nbits, i ∈ set) ∧ set' = set) ∨
      ∃ i < nbits, r = .index i ∧ i ∉ set ∧ (∀ j < i, j ∈ set) ∧ set' = insert i set
  | .mark i => r = .done ∧ set' = insert i set
  | .unmark i => r = .done ∧ set' = set \ {i}
  | .isset i => ∃ v, r = .value v ∧ (v ≠ 0 ↔ i ∈ set) ∧ set' = set

end BitmapOp

structure Represents (nbits : Nat) (fs : Fs) (set : Set Nat) : Prop where
  size : fs.nbits = nbits
  words : ∀ i, fs.freemap i < 2 ^ 8
  pad : ∀ b, nbits ≤ b → b < (nbits + 7) / 8 * 8 → Bits.get 8 fs.freemap b = true
  set : ∀ b, b ∈ set ↔ fs.marked b

section
variable {nbits b : Nat} {fs : Fs} {set : Set Nat}

theorem Represents.mark (h : Represents nbits fs set) (hb : b < nbits) :
    Represents nbits (fs.mark b) (insert b set) where
  size := h.size
  words := Bits.raise_lt h.words (Nat.mod_lt _ (by decide))
  pad c hlo hhi := by
    unfold Fs.mark
    rw [Bits.get_raise_index (by decide),h.pad c hlo hhi,Bool.true_or]
  set c := by
    rw [marked_mark (by rw [h.size]; exact hb),← h.set,Set.mem_insert_iff,or_comm]

theorem Represents.drop (h : Represents nbits fs set) (hb : b < nbits) :
    Represents nbits (fs.drop b) (set \ {b}) where
  size := h.size
  words := Bits.lower_lt h.words
  pad c hlo hhi := by
    unfold Fs.drop
    rw [Bits.get_lower_index (by decide),h.pad c hlo hhi,decide_eq_true (by omega),Bool.true_and]
  set c := by
    rw [marked_drop,← h.set]
    rfl

theorem bitmapMark_eq (hb : b < fs.nbits) (hclear : ¬ fs.marked b) :
    bitmapMark fs b = .ok (fs.mark b) := by
  have hget : (!Bits.get 8 fs.freemap b) = true := by
    cases hbit : Bits.get 8 fs.freemap b with
    | false => rfl
    | true => exact absurd ⟨hb,hbit⟩ hclear
  unfold bitmapMark
  rw [assert_of (decide_eq_true hb),assert_of hget]
  rfl

theorem bitmapIsset_iff (fs : Fs) (b : Nat) :
    bitmapIsset fs b ≠ 0 ↔ Bits.get 8 fs.freemap b = true := by
  unfold bitmapIsset Bits.get
  rw [Nat.and_two_pow]
  cases (fs.freemap (b / 8)).testBit (b % 8) <;> simp

theorem Represents.step (o : BitmapOp) (fs : Fs) (set : Set Nat) (h : Represents nbits fs set)
    (ho : o.Allowed nbits set) : ∃ r fs' set', o.run fs = .ok (r, fs') ∧
      o.Ideal nbits set r set' ∧ Represents nbits fs' set' := by
  obtain ⟨rfl,hwords,hpad,hset⟩ := h
  have h : Represents fs.nbits fs set := ⟨rfl,hwords,hpad,hset⟩
  cases o with
  | alloc =>
    rcases bitmapAlloc_spec hwords hpad with ⟨hrun,hall⟩ | ⟨b,hrun,hb,hfree,hleast⟩
    · refine ⟨.enospc,fs,set,?_,.inl ⟨rfl,fun i hi => (hset i).mpr (hall i hi),rfl⟩,h⟩
      rw [BitmapOp.run,hrun]
      rfl
    · refine ⟨.index b,fs.mark b,insert b set,?_,.inr ⟨b,hb,rfl,?_,?_,rfl⟩,h.mark hb⟩
      · rw [BitmapOp.run,hrun]
        rfl
      · rwa [hset]
      · exact fun c hc => (hset c).mpr (hleast c hc)
  | mark b =>
    refine ⟨.done,fs.mark b,insert b set,?_,⟨rfl,rfl⟩,h.mark ho.1⟩
    rw [BitmapOp.run,bitmapMark_eq ho.1 (by rw [← hset]; exact ho.2)]
    rfl
  | unmark b =>
    have hb := (hset b).mp ho
    refine ⟨.done,fs.drop b,set \ {b},?_,⟨rfl,rfl⟩,h.drop hb.1⟩
    rw [BitmapOp.run,show bitmapUnmark fs b = .ok (fs.drop b) from bfree_eq hb]
    rfl
  | isset b =>
    refine ⟨_,fs,set,rfl,⟨_,rfl,?_,rfl⟩,h⟩
    rw [bitmapIsset_iff,hset]
    exact ⟨fun hx => ⟨ho,hx⟩,fun hx => hx.2⟩

end

section
variable {ix k : Nat} {v : Nat → Nat}

theorem foldl_raise (js : List Nat) (hjs : ∀ j ∈ js, j < 8) (hv : ∀ i, v i < 2 ^ 8) :
    (∀ i, js.foldl (fun v j => Bits.raise v ix j) v i < 2 ^ 8) ∧
      ∀ k, Bits.get 8 (js.foldl (fun v j => Bits.raise v ix j) v) k =
        (Bits.get 8 v k || decide (∃ j ∈ js, k = ix * 8 + j)) := by
  induction js generalizing v with
  | nil => exact ⟨hv,by simp⟩
  | cons j js ih =>
    obtain ⟨hj,hjs⟩ := List.forall_mem_cons.mp hjs
    obtain ⟨hlt,hget⟩ := ih hjs (Bits.raise_lt hv hj)
    refine ⟨hlt,fun k => ?_⟩
    rw [List.foldl_cons,hget,Bits.get_raise hj,Bool.or_assoc,← Bool.decide_or]
    simp

theorem bitmapCreate_eq (n : Nat) : ∃ v, bitmapCreate n = .ok v ∧ (∀ i, v i < 2 ^ 8) ∧
    ∀ k < (n + 7) / 8 * 8, Bits.get 8 v k = decide (n ≤ k) := by
  have hzero : ∀ k, Bits.get 8 (fun _ => 0) k = false := fun k => by simp [Bits.get]
  by_cases hover : n % 8 = 0
  · refine ⟨_,bitmapCreate_whole hover,fun _ => by decide,fun k hk => ?_⟩
    rw [hzero,decide_eq_false (by omega)]
  · have hix : (n + 7) / 8 - 1 = n / 8 := by omega
    have hbits : n - n / 8 * 8 = n % 8 := by omega
    obtain ⟨hlt,hget⟩ := @foldl_raise (n / 8) (fun _ => 0) (List.range' (n % 8) (8 - n % 8))
      (fun j hj => by rw [List.mem_range'_1] at hj; omega) fun _ => by decide
    refine ⟨_,?_,hlt,fun k hk => ?_⟩
    · unfold bitmapCreate
      dsimp only
      rw [if_pos (by omega),hix,hbits,assert_of (by simp),assert_of (by simp; omega)]
      rfl
    · rw [hget,hzero,Bool.false_or,decide_eq_decide]
      constructor
      · rintro ⟨j,hj,rfl⟩
        rw [List.mem_range'_1] at hj
        omega
      · exact fun hnk => ⟨k % 8,List.mem_range'_1.mpr (by omega),by omega⟩

end

theorem bitmap_is_set (nbits : Nat) (fs : Fs) (ops : List BitmapOp) :
    ∃ v, bitmapCreate nbits = .ok v ∧ Refine.Behaves (fun o fs => BitmapOp.run fs o)
      (fun o set => o.Allowed nbits set) (fun o set r set' => o.Ideal nbits set r set') ops
      { fs with nbits := nbits, freemap := v } ∅ := by
  obtain ⟨v,hrun,hwords,hget⟩ := bitmapCreate_eq nbits
  refine ⟨v,hrun,Refine.behaves_of_step Represents.step ops ⟨rfl,hwords,fun b hlo hhi => ?_,fun b => ?_⟩⟩
  · rw [hget b hhi]
    exact decide_eq_true hlo
  · refine iff_of_false id fun hb => ?_
    have hlt : b < nbits := hb.1
    have hbit : Bits.get 8 v b = true := hb.2
    rw [hget b (by omega)] at hbit
    exact absurd (of_decide_eq_true hbit) (by omega)

end OS161.Sfs
