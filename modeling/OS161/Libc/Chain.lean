import OS161.Libc.Malloc
import OS161.Lib.Layout
import Mathlib.Data.List.Chain

namespace OS161.Libc

open Bytes (load32 store32)
open Layout

structure Blk where
  units : Nat
  inuse : Bool
  deriving DecidableEq, Repr

namespace Blk

def bytes (b : Blk) : Nat := 8 * b.units

def header (b : Blk) (prev : Nat) : Mheader := ⟨prev, 0, mmagic, b.units, b.inuse.toNat, mmagic⟩

end Blk

def Chain (m : Bytes.Mem) : Nat → Nat → List Blk → Prop
  | _, _, [] => True
  | a, prev, b :: bs => getHeader m a = b.header prev ∧ Chain m (a + b.bytes) b.units bs

def lastUnits (prev : Nat) : List Blk → Nat
  | [] => prev
  | b :: bs => lastUnits b.units bs

structure Mheader.Fits (h : Mheader) : Prop where
  prevblock : h.prevblock < 2 ^ 29
  pad : h.pad < 2
  magic1 : h.magic1 < 4
  nextblock : h.nextblock < 2 ^ 29
  inuse : h.inuse < 2
  magic2 : h.magic2 < 4

section
variable {m m' : Bytes.Mem} {a c x : Nat} {h : Mheader}

theorem getHeader_fits (m : Bytes.Mem) (a : Nat) : (getHeader m a).Fits := by
  have h0 := Bytes.load32_lt m a
  have h1 := Bytes.load32_lt m (a + 4)
  constructor <;> simp only [getHeader] <;> omega

theorem setHeader_of_outside (hx : x < a ∨ a + 8 ≤ x) : setHeader m a h x = m x := by
  unfold setHeader
  rw [Bytes.store32_of_outside (by omega),Bytes.store32_of_outside (by omega)]

theorem getHeader_congr (hm : ∀ x, a ≤ x → x < a + 8 → m' x = m x) :
    getHeader m' a = getHeader m a := by
  have h0 : load32 m' a = load32 m a := Bytes.load32_congr fun x _ _ => hm x (by omega) (by omega)
  have h1 : load32 m' (a + 4) = load32 m (a + 4) :=
    Bytes.load32_congr fun x _ _ => hm x (by omega) (by omega)
  unfold getHeader
  rw [h0,h1]

theorem getHeader_setHeader_of_disjoint (hd : a + 8 ≤ c ∨ c + 8 ≤ a) :
    getHeader (setHeader m a h) c = getHeader m c :=
  getHeader_congr fun x _ _ => setHeader_of_outside (by omega)

theorem getHeader_setHeader (hf : h.Fits) : getHeader (setHeader m a h) a = h := by
  obtain ⟨h1,h2,h3,h4,h5,h6⟩ := hf
  obtain ⟨prev,pad,mg1,next,inuse,mg2⟩ := h
  simp only at h1 h2 h3 h4 h5 h6
  have hlow : load32 (setHeader m a ⟨prev,pad,mg1,next,inuse,mg2⟩) a =
      prev * 8 + pad * 4 + mg1 := by
    unfold setHeader
    rw [Bytes.load32_store32_of_disjoint (by omega),Bytes.load32_store32 (by dsimp only; omega)]
    dsimp only
    omega
  have hhigh : load32 (setHeader m a ⟨prev,pad,mg1,next,inuse,mg2⟩) (a + 4) =
      next * 8 + inuse * 4 + mg2 := by
    unfold setHeader
    rw [Bytes.load32_store32 (by dsimp only; omega)]
    dsimp only
    omega
  unfold getHeader
  rw [hlow,hhigh]
  simp only [Mheader.mk.injEq]
  omega

end

theorem Blk.header_fits {b : Blk} {prev : Nat} (hp : prev < 2 ^ 29) (hb : b.units < 2 ^ 29) :
    (b.header prev).Fits :=
  ⟨hp,by simp [Blk.header],by simp [Blk.header,mmagic],hb,b.inuse.toNat_lt,
    by simp [Blk.header,mmagic]⟩

section
variable {m m' : Bytes.Mem} {a p : Nat} {b : Blk} {xs ys bs : List Blk}

theorem lastUnits_append : lastUnits p (xs ++ ys) = lastUnits (lastUnits p xs) ys := by
  induction xs generalizing p with
  | nil => rfl
  | cons x xs ih => exact ih

theorem chain_cons : Chain m a p (b :: bs) ↔
    getHeader m a = b.header p ∧ Chain m (a + b.bytes) b.units bs := Iff.rfl

theorem chain_append : Chain m a p (xs ++ ys) ↔
    Chain m a p xs ∧ Chain m (a + span Blk.bytes xs) (lastUnits p xs) ys := by
  induction xs generalizing a p with
  | nil => simp [Chain,lastUnits]
  | cons x xs ih =>
    simp only [List.cons_append,chain_cons,ih,span_cons,lastUnits,and_assoc,Nat.add_assoc]

theorem Chain.congr (h : Chain m a p bs) (h2 : ∀ b ∈ bs, 1 ≤ b.units)
    (hm : ∀ x, a ≤ x → x < a + span Blk.bytes bs → m' x = m x) : Chain m' a p bs := by
  induction bs generalizing a p with
  | nil => trivial
  | cons b bs ih =>
    have hb : 8 ≤ b.bytes := by
      have := h2 b List.mem_cons_self
      unfold Blk.bytes
      omega
    simp only [span_cons] at hm
    refine ⟨?_,ih h.2 (fun c hc => h2 c (List.mem_cons_of_mem _ hc)) fun x _ _ => hm x (by omega) (by omega)⟩
    rw [getHeader_congr fun x _ _ => hm x (by omega) (by omega)]
    exact h.1

theorem Chain.setPrev {q : Nat} (h : Chain m a p ys) (h2 : ∀ b ∈ ys, 1 ≤ b.units)
    (hq : q < 2 ^ 29) :
    Chain (setHeader m a { getHeader m a with prevblock := q }) a q ys := by
  cases ys with
  | nil => trivial
  | cons y ys =>
    have hy := h2 y List.mem_cons_self
    have hb : 8 ≤ y.bytes := by
      unfold Blk.bytes
      omega
    obtain ⟨hh,ht⟩ := h
    refine ⟨?_,ht.congr (fun c hc => h2 c (List.mem_cons_of_mem _ hc)) fun x _ _ =>
      setHeader_of_outside (by omega)⟩
    have hf := getHeader_fits m a
    have hset : ({ getHeader m a with prevblock := q } : Mheader).Fits :=
      ⟨hq,hf.pad,hf.magic1,hf.nextblock,hf.inuse,hf.magic2⟩
    rw [getHeader_setHeader hset,hh]
    rfl

end

end OS161.Libc
