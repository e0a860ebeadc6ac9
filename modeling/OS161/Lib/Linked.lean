import Mathlib.Data.List.Nodup

namespace Linked

def Links (next : Nat → Option Nat) : Option Nat → List Nat → Prop
  | none, [] => True
  | some a, b :: bs => a = b ∧ Links next (next a) bs
  | _, _ => False

structure Cells where
  head : Option Nat
  next : Nat → Option Nat

namespace Cells

def get (c : Cells) : Option Nat → Option Nat
  | none => c.head
  | some a => c.next a

def set (c : Cells) (v : Option Nat) : Option Nat → Cells
  | none => { c with head := v }
  | some a => { c with next := Function.update c.next a v }

end Cells

def unlink (x : Nat) : Nat → Option Nat → Cells → Option Cells
  | fuel, cell, c =>
    match c.get cell with
    | none => some c
    | some a =>
      if a = x then some (c.set (c.next x) cell)
      else
        match fuel with
        | 0 => none
        | fuel + 1 => unlink x fuel (some a) c

section
variable {next next' : Nat → Option Nat} {head : Option Nat} {a : Nat} {l : List Nat}

@[simp] theorem links_nil : Links next head [] ↔ head = none := by
  cases head <;> simp [Links]

@[simp] theorem links_cons : Links next head (a :: l) ↔ head = some a ∧ Links next (next a) l := by
  cases head with
  | none => simp [Links]
  | some b =>
    simp only [Links,Option.some.injEq]
    constructor <;> rintro ⟨rfl,h⟩ <;> exact ⟨rfl,h⟩

theorem Links.congr (h : Links next head l) (hn : ∀ a ∈ l, next' a = next a) :
    Links next' head l := by
  induction l generalizing head with
  | nil => simpa using h
  | cons b bs ih =>
    rw [links_cons] at h ⊢
    refine ⟨h.1,?_⟩
    rw [hn b List.mem_cons_self]
    exact ih h.2 fun a ha => hn a (List.mem_cons_of_mem _ ha)

theorem Links.push (h : Links next head l) (hn : next' a = head)
    (hr : ∀ b ∈ l, next' b = next b) : Links next' (some a) (a :: l) := by
  rw [links_cons]
  exact ⟨rfl,by rw [hn]; exact h.congr hr⟩

end

section
variable {c : Cells} {x : Nat} {cell : Option Nat} {l : List Nat}

theorem Cells.get_set_self (c : Cells) (v cell : Option Nat) : (c.set v cell).get cell = v := by
  cases cell <;> simp [Cells.set,Cells.get]

theorem Cells.next_set_of_ne {v : Option Nat} {b : Nat} (hb : cell ≠ some b) :
    (c.set v cell).next b = c.next b := by
  cases cell with
  | none => rfl
  | some a => exact Function.update_of_ne (fun heq => hb (by rw [heq])) _ _

theorem unlink_from {fuel : Nat} (hl : Links c.next (c.get cell) l) (hnd : l.Nodup)
    (hcell : ∀ a ∈ l, cell ≠ some a) (hfuel : l.length ≤ fuel) :
    ∃ c', unlink x fuel cell c = some c' ∧ Links c'.next (c'.get cell) (l.erase x) ∧
      (∀ b, b ∉ l → cell ≠ some b → c'.next b = c.next b) ∧ (cell ≠ none → c'.head = c.head) := by
  induction l generalizing cell fuel with
  | nil =>
    rw [links_nil] at hl
    refine ⟨c,?_,?_,fun _ _ _ => rfl,fun _ => rfl⟩
    · rw [unlink,hl]
    · rw [List.erase_nil,links_nil]
      exact hl
  | cons a l ih =>
    rw [links_cons] at hl
    obtain ⟨hnot,hnd⟩ := List.nodup_cons.mp hnd
    obtain ⟨fuel,rfl⟩ : ∃ k, fuel = k + 1 := ⟨fuel - 1,by simp at hfuel; omega⟩
    have hca := hcell a List.mem_cons_self
    by_cases hax : a = x
    · refine ⟨c.set (c.next x) cell,?_,?_,fun b _ hb => Cells.next_set_of_ne hb,fun hc => ?_⟩
      · rw [unlink,hl.1]
        exact if_pos hax
      · rw [Cells.get_set_self,hax,List.erase_cons_head,← hax]
        exact hl.2.congr fun b hb => Cells.next_set_of_ne (hcell b (List.mem_cons_of_mem _ hb))
      · cases cell with
        | none => exact absurd rfl hc
        | some b => rfl
    · have hne : ∀ b ∈ l, some a ≠ some b := fun b hb heq => hnot (Option.some.inj heq ▸ hb)
      have hlen : l.length ≤ fuel := by simpa using hfuel
      have hrest : Links c.next (c.get (some a)) l := hl.2
      obtain ⟨c',hok,hlinks,hsame,hhead⟩ := ih hrest hnd hne hlen
      have hhead' : c'.head = c.head := hhead nofun
      refine ⟨c',?_,?_,fun b hb hcb => ?_,fun _ => hhead'⟩
      · rw [unlink,hl.1]
        exact (if_neg hax).trans hok
      · rw [List.erase_cons_tail (by simpa using hax),links_cons]
        refine ⟨?_,hlinks⟩
        cases cell with
        | none => exact hhead'.trans hl.1
        | some d =>
          have hd : d ∉ l := fun hd => hcell d (List.mem_cons_of_mem _ hd) rfl
          exact (hsame d hd fun heq => hca heq.symm).trans hl.1
      · rw [List.mem_cons,not_or] at hb
        exact hsame b hb.2 fun heq => hb.1 (Option.some.inj heq).symm

theorem unlink_spec {fuel : Nat} (hl : Links c.next c.head l) (hnd : l.Nodup)
    (hfuel : l.length ≤ fuel) :
    ∃ c', unlink x fuel none c = some c' ∧ Links c'.next c'.head (l.erase x) ∧
      ∀ b, b ∉ l → c'.next b = c.next b := by
  have hstart : Links c.next (c.get none) l := hl
  obtain ⟨c',hok,hlinks,hsame,-⟩ := unlink_from (x := x) hstart hnd (fun _ _ => nofun) hfuel
  exact ⟨c',hok,hlinks,fun b hb => hsame b hb nofun⟩

end

end Linked
