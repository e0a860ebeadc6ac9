import OS161.Kern
import Mathlib.Data.Nat.ModEq

namespace OS161.Thread

structure Queue where
  size : Nat
  nextwrite : Nat
  nextread : Nat
  data : Nat → Nat

namespace Queue

def create (size : Nat) : Queue := ⟨size, 0, 0, fun _ => 0⟩

def isEmpty (q : Queue) : Bool := q.nextwrite == q.nextread

def isFull (q : Queue) : Bool := (q.nextwrite + 1) % q.size == q.nextread

def put (q : Queue) (ptr : Nat) : Queue :=
  { q with
    data := Function.update q.data q.nextwrite ptr
    nextwrite := (q.nextwrite + 1) % q.size }

-- wrap is the arithmetic of int: offT on the machine, id where the sizes are taken to fit.
def nsizeLoop (wrap : Int → Int) : Nat → Int → Int → Kern Int
  | 0, _, _ => .error .hang
  | fuel + 1, nsize, targetsize =>
    if nsize < targetsize then do
      let nsize := wrap (nsize * 2)
      assert (0 < nsize) "nsize > 0"
      nsizeLoop wrap fuel nsize targetsize
    else .ok nsize

-- The copy loop of q_grow.  A new buffer that filled up here would make q_addtail and q_grow
-- call each other for ever.
def refill (olddata : Nat → Nat) (osize onw : Nat) : Nat → Nat → Queue → Kern Queue
  | 0, i, q => if i = onw then .ok q else .error .hang
  | fuel + 1, i, q =>
    if i = onw then .ok q
    else if q.isFull then .error .hang
    else refill olddata osize onw fuel ((i + 1) % osize) (q.put (olddata i))

-- mem is what kmalloc answers when it is asked: memory, or NULL.
def grow (wrap : Int → Int) (mem : Bool) (q : Queue) (targetsize : Nat) :
    Kern (Option Queue) := do
  let nsize ← nsizeLoop wrap (targetsize + 1) q.size targetsize
  if mem then
    some <$> refill q.data q.size q.nextwrite q.size q.nextread (create nsize.toNat)
  else pure none

def preallocate (wrap : Int → Int) (mem : Bool) (q : Queue) (size : Nat) :
    Kern (Option Queue) := do
  assert (0 < q.size) "q->size > 0"
  if q.size < size then q.grow wrap mem size else pure (some q)

def addtail (wrap : Int → Int) (mem : Bool) (q : Queue) (ptr : Nat) : Kern (Option Queue) := do
  assert (0 < q.size) "q->size > 0"
  let grown ← if q.isFull then q.grow wrap mem (q.size + 1) else pure (some q)
  pure (grown.map fun q => q.put ptr)

def addtails (mem : Bool) (q : Queue) : List Nat → Kern (Option Queue)
  | [] => pure (some q)
  | ptr :: ptrs => do
    match ← q.addtail id mem ptr with
    | none => pure none
    | some q => addtails mem q ptrs

def remhead (q : Queue) : Kern (Nat × Queue) := do
  assert (0 < q.size) "q->size > 0"
  assert (!q.isEmpty) "!q_empty(q)"
  pure (q.data q.nextread, { q with nextread := (q.nextread + 1) % q.size })

def count (q : Queue) : Nat := (q.nextwrite + q.size - q.nextread) % q.size

def toList (q : Queue) : List Nat :=
  (List.range q.count).map fun k => q.data ((q.nextread + k) % q.size)

structure Holds (q : Queue) (l : List Nat) : Prop where
  reads : q.nextread < q.size
  room : l.length < q.size
  writes : q.nextwrite = (q.nextread + l.length) % q.size
  cells : ∀ k (h : k < l.length), q.data ((q.nextread + k) % q.size) = l[k]

variable {q : Queue} {l : List Nat} {a : Nat}

theorem Holds.size_pos (h : q.Holds l) : 0 < q.size := by
  have := h.reads
  omega

theorem add_mod_inj {n r i j : Nat} (hi : i < n) (hj : j < n)
    (h : (r + i) % n = (r + j) % n) : i = j := by
  have hmod := Nat.ModEq.add_left_cancel' r h
  rwa [Nat.ModEq,Nat.mod_eq_of_lt hi,Nat.mod_eq_of_lt hj] at hmod

theorem Holds.count_eq (h : q.Holds l) : q.count = l.length := by
  have hr := h.reads
  have hl := h.room
  have hw := h.writes
  unfold count
  rw [hw]
  by_cases hwrap : q.nextread + l.length < q.size
  · rw [Nat.mod_eq_of_lt hwrap,
      show q.nextread + l.length + q.size - q.nextread = l.length + q.size by omega,
      Nat.add_mod_right,Nat.mod_eq_of_lt hl]
  · have hmod : (q.nextread + l.length) % q.size = q.nextread + l.length - q.size := by
      rw [Nat.mod_eq_sub_mod (by omega),Nat.mod_eq_of_lt (by omega)]
    rw [hmod,show q.nextread + l.length - q.size + q.size - q.nextread = l.length by omega,
      Nat.mod_eq_of_lt hl]

theorem Holds.toList_eq (h : q.Holds l) : q.toList = l := by
  apply List.ext_getElem
  · simp [toList,h.count_eq]
  · intro k hk hk'
    simp only [toList,List.getElem_map,List.getElem_range]
    exact h.cells k hk'

theorem create_holds {size : Nat} (h : 0 < size) : (create size).Holds [] :=
  ⟨h,h,by simp [create],by simp⟩

theorem Holds.isEmpty_iff (h : q.Holds l) : q.isEmpty = true ↔ l = [] := by
  have hr := h.reads
  have hl := h.room
  simp only [isEmpty,beq_iff_eq]
  constructor
  · intro he
    rw [h.writes] at he
    have : (q.nextread + l.length) % q.size = (q.nextread + 0) % q.size := by
      rw [he,Nat.add_zero,Nat.mod_eq_of_lt hr]
    exact List.length_eq_zero_iff.mp (add_mod_inj hl h.size_pos this)
  · intro he
    rw [h.writes,he,List.length_nil,Nat.add_zero,Nat.mod_eq_of_lt hr]

theorem Holds.isFull_iff (h : q.Holds l) : q.isFull = true ↔ l.length + 1 = q.size := by
  have hr := h.reads
  have hl := h.room
  have hmod : (q.nextwrite + 1) % q.size = (q.nextread + (l.length + 1)) % q.size := by
    rw [h.writes,Nat.mod_add_mod,Nat.add_assoc]
  simp only [isFull,beq_iff_eq,hmod]
  constructor
  · intro he
    by_contra hne
    have : (q.nextread + (l.length + 1)) % q.size = (q.nextread + 0) % q.size := by
      rw [he,Nat.add_zero,Nat.mod_eq_of_lt hr]
    have := add_mod_inj (by omega) h.size_pos this
    omega
  · intro he
    rw [he,Nat.add_mod_right,Nat.mod_eq_of_lt hr]

theorem Holds.put (h : q.Holds l) (hroom : l.length + 1 < q.size) (a : Nat) :
    (q.put a).Holds (l ++ [a]) := by
  refine ⟨h.reads,by simpa [Queue.put] using hroom,?_,?_⟩
  · simp only [Queue.put,List.length_append,List.length_singleton]
    rw [h.writes,Nat.mod_add_mod,Nat.add_assoc]
  · intro k hk
    simp only [List.length_append,List.length_singleton] at hk
    simp only [Queue.put]
    by_cases hlt : k < l.length
    · rw [Function.update_of_ne,List.getElem_append_left hlt]
      · exact h.cells k hlt
      · intro he
        rw [h.writes] at he
        have := add_mod_inj (by omega) (by omega) he
        omega
    · obtain rfl : k = l.length := by omega
      rw [h.writes,Function.update_self]
      simp

def Exact (wrap : Int → Int) (target : Nat) : Prop :=
  ∀ k : Nat, k < target → wrap ((k : Int) * 2) = (k * 2 : Nat)

theorem exact_id (target : Nat) : Exact id target := fun _ _ => rfl

theorem exact_offT {target : Nat} (h : target ≤ 2 ^ 28 + 1) : Exact offT target :=
  fun _ _ => offT_of_lt (by omega) (by omega)

variable {wrap : Int → Int}

theorem nsizeLoop_spec {target : Nat} (hw : Exact wrap target) (fuel n : Nat) (hn : 0 < n)
    (hfuel : target ≤ n + fuel) : ∃ m : Nat, nsizeLoop wrap (fuel + 1) n target = .ok (m : Int) ∧
      target ≤ m ∧ n ≤ m := by
  induction fuel generalizing n with
  | zero =>
    rw [nsizeLoop,if_neg (by omega)]
    exact ⟨n,rfl,by omega,Nat.le_refl n⟩
  | succ fuel ih =>
    rw [nsizeLoop]
    by_cases hlt : n < target
    · rw [if_pos (by omega)]
      dsimp only
      rw [hw n hlt,assert_of (by simpa using hn),ok_bind]
      obtain ⟨m,hm,hge,hmono⟩ := ih (n * 2) (by omega) (by omega)
      exact ⟨m,hm,hge,by omega⟩
    · rw [if_neg (by omega)]
      exact ⟨n,rfl,by omega,Nat.le_refl n⟩

theorem refill_spec {old : Queue} (hold : old.Holds l) : ∀ (rest done : List Nat) (fuel : Nat)
    (q : Queue), done ++ rest = l → rest.length ≤ fuel → q.Holds done → l.length < q.size →
    ∃ q', refill old.data old.size old.nextwrite fuel
        ((old.nextread + done.length) % old.size) q = .ok q' ∧ q'.Holds l ∧ q'.size = q.size := by
  intro rest
  induction rest with
  | nil =>
    intro done fuel q heq _ hq _
    have hdone : done = l := by rw [← heq,List.append_nil]
    refine ⟨q,?_,hdone ▸ hq,rfl⟩
    cases fuel <;> simp only [refill,hdone,hold.writes,if_true]
  | cons b rest ih =>
    intro done fuel q heq hfuel hq hsize
    have hlen : done.length + (rest.length + 1) = l.length := by
      rw [← heq,List.length_append,List.length_cons]
    have hl := hold.room
    obtain ⟨fuel,rfl⟩ : ∃ n, fuel = n + 1 := ⟨fuel - 1,by simp at hfuel; omega⟩
    have hmore : ¬ (old.nextread + done.length) % old.size = old.nextwrite := by
      rw [hold.writes]
      intro he
      have := add_mod_inj (by omega) (by omega) he
      omega
    have hfull : ¬ q.isFull = true := by
      rw [hq.isFull_iff]
      omega
    have hb : old.data ((old.nextread + done.length) % old.size) = b := by
      rw [hold.cells done.length (by omega)]
      simp [← heq]
    have hnext : ((old.nextread + done.length) % old.size + 1) % old.size =
        (old.nextread + (done ++ [b]).length) % old.size := by
      rw [Nat.mod_add_mod,List.length_append,List.length_singleton,Nat.add_assoc]
    unfold refill
    rw [if_neg hmore,if_neg hfull,hb,hnext]
    exact ih (done ++ [b]) fuel (q.put b) (by simp [← heq]) (by simp at hfuel; omega)
      (hq.put (by omega) b) hsize

theorem grow_spec (h : q.Holds l) {target : Nat} (hw : Exact wrap target) : ∃ q' : Queue,
    q'.Holds l ∧ target ≤ q'.size ∧ q.size ≤ q'.size ∧
      ∀ mem, q.grow wrap mem target = .ok (if mem then some q' else none) := by
  have hl := h.room
  obtain ⟨m,hm,hge,hmono⟩ := nsizeLoop_spec hw target q.size h.size_pos (by omega)
  obtain ⟨q',heq,hq',hs⟩ :=
    refill_spec h l [] q.size (create m) rfl (by omega) (create_holds (by omega)) (by
      show l.length < m
      omega)
  rw [List.length_nil,Nat.add_zero,Nat.mod_eq_of_lt h.reads] at heq
  have hs : q'.size = m := hs
  refine ⟨q',hq',by omega,by omega,fun mem => ?_⟩
  unfold grow
  rw [hm,ok_bind,Int.toNat_natCast,heq]
  cases mem <;> rfl

theorem preallocate_spec (h : q.Holds l) {size : Nat} (hw : Exact wrap size) : ∃ q' : Queue,
    q'.Holds l ∧ size ≤ q'.size ∧ q.size ≤ q'.size ∧ ∀ mem, q.preallocate wrap mem size =
      .ok (if mem = true ∨ size ≤ q.size then some q' else none) := by
  unfold preallocate
  simp only [assert_of (show decide (0 < q.size) = true by simpa using h.size_pos),ok_bind]
  by_cases hlt : q.size < size
  · obtain ⟨q',hq',hn,hsize,heq⟩ := grow_spec h hw
    refine ⟨q',hq',hn,hsize,fun mem => ?_⟩
    simp only [if_pos hlt,heq,Nat.not_le.mpr hlt,or_false]
  · refine ⟨q,h,by omega,Nat.le_refl _,fun mem => ?_⟩
    rw [if_neg hlt,if_pos (.inr (by omega))]
    rfl

theorem addtail_spec (h : q.Holds l) (hw : Exact wrap (q.size + 1)) (a : Nat) : ∃ q' : Queue,
    q'.Holds (l ++ [a]) ∧ q.size ≤ q'.size ∧ (l.length + 1 < q.size → q'.size = q.size) ∧
      ∀ mem, q.addtail wrap mem a =
        .ok (if mem = true ∨ l.length + 1 < q.size then some q' else none) := by
  have hl := h.room
  unfold addtail
  simp only [assert_of (show decide (0 < q.size) = true by simpa using h.size_pos),ok_bind]
  by_cases hroom : l.length + 1 < q.size
  · have hfull : ¬ q.isFull = true := by
      rw [h.isFull_iff]
      omega
    refine ⟨q.put a,h.put hroom a,Nat.le_refl _,fun _ => rfl,fun mem => ?_⟩
    rw [if_neg hfull,if_pos (.inr hroom)]
    rfl
  · obtain ⟨q',hq',hn,-,heq⟩ := grow_spec h hw
    refine ⟨q'.put a,hq'.put (by omega) a,by simp only [put]; omega,fun hc => absurd hc hroom,
      fun mem => ?_⟩
    simp only [if_pos (h.isFull_iff.mpr (show l.length + 1 = q.size by omega)),heq,hroom,or_false,
      ok_bind]
    cases mem <;> rfl

theorem addtails_spec (more : List Nat) (h : q.Holds l) : ∃ q' : Queue, q'.Holds (l ++ more) ∧
    q.size ≤ q'.size ∧ ∀ mem, q.addtails mem more =
      .ok (if mem = true ∨ l.length + more.length < q.size then some q' else none) := by
  induction more generalizing q l with
  | nil =>
    refine ⟨q,by rwa [List.append_nil],Nat.le_refl _,fun mem => ?_⟩
    rw [if_pos (.inr h.room)]
    rfl
  | cons a more ih =>
    have hl := h.room
    obtain ⟨q₁,hq₁,hsize₁,hsame,hadd⟩ := addtail_spec h (exact_id _) a
    obtain ⟨q',hq',hsize,hmore⟩ := ih hq₁
    refine ⟨q',by simpa using hq',by omega,fun mem => ?_⟩
    rw [addtails,hadd,ok_bind]
    rw [List.length_append,List.length_singleton] at hmore
    by_cases hroom : l.length + 1 < q.size
    · rw [if_pos (.inr hroom)]
      dsimp only
      rw [hmore,hsame hroom,List.length_cons,show l.length + (more.length + 1) =
        l.length + 1 + more.length by omega]
    · have hfull : ¬ l.length + (a :: more).length < q.size := by
        rw [List.length_cons]
        omega
      cases mem with
      | true => simp only [true_or,if_true,hmore]
      | false =>
        rw [if_neg (by simp [hroom]),if_neg (by simpa using hfull)]
        rfl

theorem remhead_spec (h : q.Holds (a :: l)) :
    ∃ q', q.remhead = .ok (a, q') ∧ q'.Holds l := by
  have hempty : (!q.isEmpty) = true := by
    rw [Bool.not_eq_true',← Bool.not_eq_true,h.isEmpty_iff]
    exact List.cons_ne_nil a l
  have hroom : l.length + 1 < q.size := h.room
  have hfirst : q.data q.nextread = a := by
    have := h.cells 0 (by simp)
    rwa [Nat.add_zero,Nat.mod_eq_of_lt h.reads] at this
  unfold remhead
  rw [assert_of (by simpa using h.size_pos),ok_bind,assert_of hempty,ok_bind,hfirst]
  refine ⟨_,rfl,Nat.mod_lt _ h.size_pos,Nat.lt_of_succ_lt hroom,?_,?_⟩
  · rw [h.writes,List.length_cons,Nat.mod_add_mod,Nat.add_assoc,Nat.add_comm 1]
  · intro k hk
    have := h.cells (k + 1) (by simpa using hk)
    rw [Nat.mod_add_mod,Nat.add_assoc,Nat.add_comm 1]
    simpa using this

end Queue

end OS161.Thread
