import Mathlib.Tactic.Common

variable {K V : Type}

abbrev Slots (K V : Type) := List (Option (K × V))

namespace Slots

def Binds (s : Slots K V) (k : K) (v : V) : Prop := some (k, v) ∈ s

def Unique (s : Slots K V) : Prop :=
  ∀ (i j : Nat) k v w, s[i]? = some (some (k, v)) → s[j]? = some (some (k, w)) → i = j

def Maps (s : Slots K V) (map : K → Option V) : Prop :=
  s.Unique ∧ ∀ k v, map k = some v ↔ s.Binds k v

def Names (map : K → Option V) (n : Nat) : Prop :=
  ∃ names : List K, names.Nodup ∧ names.length = n ∧ ∀ k, k ∈ names ↔ map k ≠ none

def write (s : Slots K V) (i : Nat) (e : Option (K × V)) : Slots K V :=
  if i < s.length then s.set i e else s ++ [e]

section
variable {s : Slots K V} {i j : Nat} {e : Option (K × V)} {k : K} {v : V}

theorem binds_iff : s.Binds k v ↔ ∃ i : Nat, s[i]? = some (some (k, v)) := by
  unfold Binds
  exact List.mem_iff_getElem?

theorem exists_map_some (h : none ∉ s) : ∃ l : List (K × V), s = l.map some := by
  induction s with
  | nil => exact ⟨[],rfl⟩
  | cons e s ih =>
    rw [List.mem_cons,not_or] at h
    obtain ⟨l,rfl⟩ := ih h.2
    obtain ⟨p,rfl⟩ := Option.ne_none_iff_exists'.mp (Ne.symm h.1)
    exact ⟨p :: l,rfl⟩

theorem Maps.names {map : K → Option V} (h : s.Maps map) (hfull : none ∉ s) :
    Names map s.length := by
  obtain ⟨huniq,hmap⟩ := h
  obtain ⟨s,rfl⟩ := exists_map_some hfull
  refine ⟨s.map Prod.fst,?_,by simp,fun k => ?_⟩
  · refine List.pairwise_map.mpr (List.pairwise_iff_getElem.mpr
      fun i j hi hj hij heq => Nat.ne_of_lt hij ?_)
    refine huniq i j s[i].1 s[i].2 s[j].2 (by simp [hi]) ?_
    rw [heq]
    simp [hj]
  · rw [Option.ne_none_iff_exists']
    simp only [hmap,Binds,List.mem_map,Prod.exists,exists_and_right,exists_eq_right,
      Option.some.injEq]

theorem getElem?_write (hi : i ≤ s.length) :
    (s.write i e)[j]? = if j = i then some e else s[j]? := by
  unfold write
  by_cases hlt : i < s.length
  · rw [if_pos hlt,List.getElem?_set]
    grind
  · rw [if_neg hlt]
    grind

theorem Maps.write [DecidableEq K] {map : K → Option V} (h : s.Maps map) (hi : i ≤ s.length)
    (hslot : ∀ k' w, s[i]? = some (some (k', w)) → k' = k)
    (hk : ∀ (j : Nat) w, s[j]? = some (some (k, w)) → j = i) (e : Option V) :
    (s.write i (e.map (k, ·))).Maps (Function.update map k e) := by
  obtain ⟨huniq,hmap⟩ := h
  simp only [Maps,Unique,binds_iff,getElem?_write hi] at hmap ⊢
  cases e with
  | none | some v =>
    refine ⟨by grind [Unique],fun k' w => ?_⟩
    rcases eq_or_ne k' k with rfl | hne
    · rw [Function.update_self]
      exact ⟨fun h => ⟨i,by grind⟩,by grind⟩
    · rw [Function.update_of_ne hne,hmap]
      exact exists_congr fun j => by grind

end

end Slots
