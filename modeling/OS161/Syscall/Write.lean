import OS161.Libc.PrintNum
import OS161.Syscall.Dispatch

namespace OS161.Syscall

open Function

open Libc

structure WritesExactly (m m' : Machine) (buf size : Nat) : Prop where
  console : m'.console = m.console ++ (List.range size).map fun i => m.mem (buf + i)
  mem : m'.mem = m.mem

theorem kprintf_str (stack : Mem) (console str : List Byte) (h : str.length < 2 ^ 31) :
    ∃ count, vprintf (· ++ ·) stack console (chars ['%', 's']) [.str (some str)] =
      .ok (count, console ++ str) := by
  have hsend : Appends (σ := List Byte) (· ++ ·) := ⟨List.append_assoc⟩
  have hstuff := @pfPrintstuff_eq _ _ hsend
    (pfField console [] 0 false ' '.toUInt8) 0 [] [] str rfl (by decide) (by simpa using h)
  have hstr : pfSends (· ++ ·) stack (chars ['%','s']) (pfStart console [.str (some str)]) =
      .ok (pfEndfield
        (pfPrintstuff (· ++ ·) (pfField console [] 0 false ' '.toUInt8) [] [] str)) := rfl
  have htext : padded 0 false ' '.toUInt8 [] [] str = str := by
    simp [padded]
  unfold vprintf
  rw [hstr,hstuff,ok_bind]
  exact ⟨_,congrArg (fun t => Except.ok (_, console ++ t)) htext⟩

theorem scan_length_le (m : Mem) (a n : Nat) : (CString.scan m a n).length ≤ n := by
  induction n generalizing a with
  | zero => simp [CString.scan]
  | succ n ih =>
    rw [CString.scan]
    split
    · simp
    · simpa using ih (a + 1)

theorem scan_eq_map_iff (m : Mem) (a n : Nat) :
    CString.scan m a n = (List.range n).map (fun i => m (a + i)) ↔ ∀ i < n, m (a + i) ≠ 0 := by
  constructor
  · intro h i hi
    refine CString.scan_nonzero m a n _ ?_
    rw [h]
    exact List.mem_map.mpr ⟨i,List.mem_range.mpr hi,rfl⟩
  · intro h
    refine CString.scan_list _ ?_ (by simp) fun i hi _ => by simp [hi]
    intro b hb
    obtain ⟨i,hi,rfl⟩ := List.mem_map.mp hb
    exact h i (List.mem_range.mp hi)

theorem write_exact_iff (env : Env) (m m' : Machine) (raw : Raw) (filehandle : Int)
    (buf size : Nat) (hfd : 0 ≤ filehandle ∧ filehandle ≤ 2) (hbuf : buf ≠ 0)
    (huser : buf + size ≤ 2 ^ 31) (hok : sysWrite env filehandle buf size m = .ok (raw, m')) :
    (∀ stack, ∃ count, vprintf (· ++ ·) stack m.console (chars ['%', 's'])
      [.str (some (CString.read m'.mem buf size).bytes)] = .ok (count, m'.console)) ∧
    (WritesExactly m m' buf size ↔
      (∀ i < size, m.mem (buf + i) ≠ 0) ∧ m.mem (buf + size) = 0) := by
  have haddr : u32 ((buf : Int) + size) = buf + size := u32_of_nat (n := buf + size) (by omega)
  unfold sysWrite at hok
  rw [if_neg (by omega),if_neg hbuf,haddr] at hok
  obtain ⟨m₁,hm₁,h₁⟩ := bind_ok hok
  obtain rfl := store_ok hm₁
  cases h₁
  have hbytes (i : Nat) (hi : i < size) :
      update m.mem (buf + size) 0 (buf + i) = m.mem (buf + i) :=
    update_of_ne (by omega) _ _
  have hscan := scan_eq_map_iff (update m.mem (buf + size) 0) buf size
  have hmap : (List.range size).map (fun i => update m.mem (buf + size) 0 (buf + i)) =
      (List.range size).map fun i => m.mem (buf + i) :=
    List.map_congr_left fun i hi => hbytes i (List.mem_range.mp hi)
  rw [hmap] at hscan
  refine ⟨fun stack => kprintf_str stack _ _ ?_,fun h => ⟨fun i hi => ?_,?_⟩,fun h => ⟨?_,?_⟩⟩
  · exact Nat.lt_of_le_of_lt (scan_length_le _ buf size) (by omega)
  · rw [← hbytes i hi]
    exact hscan.mp (List.append_cancel_left h.console) i hi
  · rw [← h.mem]
    exact update_self _ _ _
  · exact congrArg (m.console ++ ·) (hscan.mpr fun i hi => by rw [hbytes i hi]; exact h.1 i hi)
  · exact Function.update_eq_self_iff.mpr h.2.symm

def holding (text : List Byte) : Machine := { machine with mem := fun a => text.getD (a - 16) 0 }

theorem write_exact_three_bytes :
    ∃ m', sysWrite env 1 16 3 (holding [65, 66, 67]) = .ok (⟨0, 0⟩, m') ∧
      m'.console = [65, 66, 67] ∧ WritesExactly (holding [65, 66, 67]) m' 16 3 :=
  ⟨_,rfl,by decide,((write_exact_iff env (holding [65, 66, 67]) _ _ 1 16 3 (by decide) (by decide)
    (by decide) rfl).2).mpr ⟨by decide,rfl⟩⟩

theorem write_cuts_and_clobbers :
    ∃ m', sysWrite env 1 16 2 (holding [65, 0, 66]) = .ok (⟨0, 0⟩, m') ∧ m'.console = [65] ∧
      (holding [65, 0, 66]).mem 18 = 66 ∧ m'.mem 18 = 0 ∧
      ¬ WritesExactly (holding [65, 0, 66]) m' 16 2 := by
  refine ⟨_,rfl,by decide,by decide,by decide,fun h => ?_⟩
  exact absurd (congrFun h.mem 18) (by decide)

end OS161.Syscall
