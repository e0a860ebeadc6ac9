import Mathlib.Data.Nat.Digits.Lemmas

namespace Numeral

def accum (base : Nat) : Nat → List Nat → Nat := List.foldl fun acc d => acc * base + d

def value (base : Nat) (ds : List Nat) : Nat := accum base 0 ds

def canonical (base n : Nat) : List Nat := if n = 0 then [0] else (Nat.digits base n).reverse

section
variable {base acc d k n : Nat} {ds : List Nat}

theorem accum_cons : accum base acc (d :: ds) = accum base (acc * base + d) ds := rfl

theorem accum_append {es : List Nat} :
    accum base acc (ds ++ es) = accum base (accum base acc ds) es := List.foldl_append

theorem accum_zeros : accum base acc (List.replicate k 0) = acc * base ^ k := by
  induction k generalizing acc with
  | zero => simp [accum]
  | succ k ih => rw [List.replicate_succ,accum_cons,ih,Nat.add_zero,pow_succ',Nat.mul_assoc]

theorem le_accum (hb : 0 < base) : acc ≤ accum base acc ds := by
  induction ds generalizing acc with
  | nil => exact Nat.le_refl _
  | cons d ds ih =>
    calc acc ≤ acc * base := Nat.le_mul_of_pos_right acc hb
      _ ≤ acc * base + d := Nat.le_add_right _ _
      _ ≤ accum base acc (d :: ds) := ih

theorem value_zeros_append : value base (List.replicate k 0 ++ ds) = value base ds := by
  rw [value,accum_append,accum_zeros,Nat.zero_mul,value]

theorem value_append_zeros : value base (ds ++ List.replicate k 0) = value base ds * base ^ k := by
  rw [value,accum_append,accum_zeros,value]

theorem value_reverse_digits (base n : Nat) : value base (Nat.digits base n).reverse = n := by
  have h := Nat.ofDigits_digits base n
  rw [Nat.ofDigits_eq_foldr] at h
  rw [value,accum,List.foldl_reverse]
  simpa [Nat.add_comm,Nat.mul_comm] using h

end

section
variable {base n k : Nat}

theorem canonical_zero : canonical base 0 = [0] := rfl

theorem canonical_pos (hn : n ≠ 0) : canonical base n = (Nat.digits base n).reverse := if_neg hn

theorem canonical_ne_nil : canonical base n ≠ [] := by
  by_cases hn : n = 0
  · simp [canonical,hn]
  · simp [canonical_pos hn,Nat.digits_eq_nil_iff_eq_zero,hn]

theorem value_canonical : value base (canonical base n) = n := by
  by_cases hn : n = 0
  · simp [canonical,hn,value,accum]
  · rw [canonical_pos hn,value_reverse_digits]

theorem canonical_lt (hb : 1 < base) : ∀ d ∈ canonical base n, d < base := by
  intro d hd
  by_cases hn : n = 0
  · rw [hn,canonical_zero,List.mem_singleton] at hd
    omega
  · rw [canonical_pos hn,List.mem_reverse] at hd
    exact Nat.digits_lt_base hb hd

theorem canonical_head (h : (canonical base n).head? = some 0) : n = 0 := by
  by_contra hn
  rw [canonical_pos hn,List.head?_reverse,
    List.getLast?_eq_getLast_of_ne_nil (Nat.digits_ne_nil_iff_ne_zero.mpr hn)] at h
  exact Nat.getLast_digit_ne_zero base hn (Option.some_inj.mp h)

theorem canonical_length (hb : 1 < base) (hk : 0 < k) (h : n < base ^ k) :
    (canonical base n).length ≤ k := by
  by_cases hn : n = 0
  · rw [hn,canonical_zero]
    exact hk
  · rw [canonical_pos hn,List.length_reverse]
    exact (Nat.digits_length_le_iff hb n).mpr h

theorem canonical_step (hb : 1 < base) (h : n / base ≠ 0) :
    canonical base n = canonical base (n / base) ++ [n % base] := by
  have hn : n ≠ 0 := by
    rintro rfl
    exact h (Nat.zero_div base)
  rw [canonical_pos hn,canonical_pos h,Nat.digits_def' hb (Nat.pos_of_ne_zero hn),
    List.reverse_cons]

theorem canonical_last (hb : 1 < base) (h : n / base = 0) : canonical base n = [n % base] := by
  have hlt : n < base := (Nat.div_eq_zero_iff_lt (by omega)).mp h
  rw [Nat.mod_eq_of_lt hlt]
  by_cases hn : n = 0
  · rw [hn,canonical_zero]
  · rw [canonical_pos hn,Nat.digits_of_lt base n hn hlt,List.reverse_singleton]

end

section
variable {α : Type} (val : α → Option Nat) (base : Nat)

def natOf (txt : List α) : Option Nat :=
  if txt.isEmpty then none else (txt.mapM val).map (value base)

def intOf [DecidableEq α] (minus : α) : List α → Option Int
  | [] => none
  | c :: txt =>
    if c = minus then (natOf val base txt).map fun n => -(n : Int)
    else (natOf val base (c :: txt)).map fun n => (n : Int)

variable {val base} {digit : Nat → α} {ds : List Nat}

theorem mapM_spell (h : ∀ d ∈ ds, val (digit d) = some d) : (ds.map digit).mapM val = some ds := by
  induction ds with
  | nil => rfl
  | cons d ds ih =>
    rw [List.map_cons,List.mapM_cons,h d List.mem_cons_self,
      ih fun e he => h e (List.mem_cons_of_mem _ he)]
    rfl

theorem natOf_spell (h : ∀ d ∈ ds, val (digit d) = some d) (hne : ds ≠ []) :
    natOf val base (ds.map digit) = some (value base ds) := by
  rw [natOf,if_neg (by simpa using hne),mapM_spell h]
  rfl

variable [DecidableEq α] {minus : α}

theorem intOf_neg (txt : List α) :
    intOf val base minus (minus :: txt) = (natOf val base txt).map fun n => -(n : Int) :=
  if_pos rfl

theorem intOf_spell (h : ∀ d ∈ ds, val (digit d) = some d) (hm : ∀ d ∈ ds, digit d ≠ minus)
    (hne : ds ≠ []) : intOf val base minus (ds.map digit) = some (value base ds : Int) := by
  cases ds with
  | nil => exact absurd rfl hne
  | cons d ds =>
    have hread : natOf val base ((d :: ds).map digit) = some (value base (d :: ds)) :=
      natOf_spell h hne
    rw [List.map_cons,intOf,if_neg (hm d List.mem_cons_self),← List.map_cons,hread]
    rfl

end

end Numeral
