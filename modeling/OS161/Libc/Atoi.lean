import OS161.Libc.PrintNum

namespace OS161.Libc

open Function

open Numeral (canonical accum)

section
variable {buf : Mem} {buflen bufpos : Nat} {txt : Text}

theorem snprintfSend_appends : Appends snprintfSend := ⟨fun _ _ _ => List.foldl_append.symm⟩

theorem snprintfSend_fits (h : bufpos + txt.length ≤ buflen) :
    ∃ buf', snprintfSend ⟨buf, buflen, bufpos⟩ txt = ⟨buf', buflen, bufpos + txt.length⟩ ∧
      Holds buf' bufpos txt ∧ ∀ i < bufpos, buf' i = buf i := by
  induction txt generalizing buf bufpos with
  | nil => exact ⟨buf,rfl,fun i hi => absurd hi (Nat.not_lt_zero i),fun _ _ => rfl⟩
  | cons c txt ih =>
    rw [List.length_cons] at h
    obtain ⟨buf',hrun,hholds,hkept⟩ :=
      @ih (update buf bufpos c) (bufpos + 1) (by omega)
    have hlt : bufpos < buflen := by omega
    have hput : snpPut ⟨buf,buflen,bufpos⟩ c =
        ⟨update buf bufpos c,buflen,bufpos + 1⟩ := if_pos hlt
    refine ⟨buf',?_,fun i hi => ?_,fun i hi => ?_⟩
    · rw [snprintfSend,List.foldl_cons,hput,List.length_cons,← Nat.add_assoc,
        Nat.add_right_comm]
      exact hrun
    · cases i with
      | zero =>
        rw [Nat.add_zero,hkept bufpos (Nat.lt_succ_self _),update_self]
        rfl
      | succ i =>
        have hnext := hholds i (by simpa using hi)
        rw [List.getD_cons_succ,← hnext]
        congr 1
        omega
    · rw [hkept i (Nat.lt_succ_of_lt hi),update_of_ne (Nat.ne_of_lt hi)]

theorem Holds.terminate (h : Holds buf 0 txt) :
    Holds (Function.update buf txt.length 0) 0 (txt ++ [0]) := by
  intro i hi
  rw [List.length_append,List.length_singleton] at hi
  rw [Nat.zero_add]
  rcases Nat.lt_or_eq_of_le (Nat.le_of_lt_succ hi) with hlt | rfl
  · have hbyte := h i hlt
    rw [Nat.zero_add] at hbyte
    rw [update_of_ne (Nat.ne_of_lt hlt),hbyte]
    simp [List.getD_eq_getElem?_getD,List.getElem?_append_left hlt]
  · simp

end

section
variable {ds : List Nat} {val : Nat}

theorem atoiDigits_spell (hds : ∀ d ∈ ds, d < 10) (hlow : accum 10 val ds < 2 ^ 32) :
    atoiDigits val (spell ds) = accum 10 val ds := by
  induction ds generalizing val with
  | nil => rfl
  | cons d ds ih =>
    have hd : (digits.take 10).idxOf? (digitChar d) = some d :=
      digitVal_digitChar 10 (by decide) d (hds d List.mem_cons_self)
    rw [Numeral.accum_cons] at hlow ⊢
    have hle : val * 10 + d ≤ accum 10 (val * 10 + d) ds := Numeral.le_accum (by decide)
    have hshift : u32 ((val : Int) * 10) = val * 10 := @u32_of_nat (val * 10) (by omega)
    have hnext : u32 ((u32 ((val : Int) * 10) : Int) + d) = val * 10 + d := by
      rw [hshift,← Int.natCast_add,u32_of_nat (by omega)]
    rw [spell,List.map_cons,atoiDigits,hd]
    dsimp only
    rw [hnext]
    exact ih (fun e he => hds e (List.mem_cons_of_mem _ he)) hlow

theorem digitChar_kinds : ∀ d < 10, digitChar d ≠ ' '.toUInt8 ∧ digitChar d ≠ '\t'.toUInt8 ∧
    digitChar d ≠ '-'.toUInt8 ∧ digitChar d ≠ '+'.toUInt8 := by
  decide

theorem atoi_spell (hds : ∀ d ∈ ds, d < 10) (hlow : accum 10 0 ds < 2 ^ 32) :
    atoi (spell ds) = cint (accum 10 0 ds) := by
  have hsign : atoiSign (atoiSkip (spell ds)) = (false, spell ds) := by
    cases ds with
    | nil => rfl
    | cons d ds =>
      obtain ⟨h1,h2,h3,h4⟩ := digitChar_kinds d (hds d List.mem_cons_self)
      simp [spell,atoiSkip,atoiSign,h1,h2,h3,h4]
  unfold atoi
  rw [hsign]
  dsimp only
  rw [if_neg Bool.false_ne_true,atoiDigits_spell hds hlow]

theorem atoi_minus_spell (hds : ∀ d ∈ ds, d < 10) (hlow : accum 10 0 ds < 2 ^ 32) :
    atoi ('-'.toUInt8 :: spell ds) = cint (u32 (-(accum 10 0 ds : Int))) := by
  have hsign : atoiSign (atoiSkip ('-'.toUInt8 :: spell ds)) = (true, spell ds) := by
    rw [atoiSkip,List.dropWhile_cons_of_neg (by decide),atoiSign,if_pos rfl]
  unfold atoi
  rw [hsign]
  dsimp only
  rw [if_pos rfl,atoiDigits_spell hds hlow]

theorem atoi_numText {n : Int} (h0 : -2 ^ 31 ≤ n) (h1 : n < 2 ^ 31) :
    atoi (signText n ++ numText .d n) = n := by
  have hds : ∀ d ∈ canonical 10 n.natAbs, d < 10 := Numeral.canonical_lt (by decide)
  have hval : accum 10 0 (canonical 10 n.natAbs) = n.natAbs := Numeral.value_canonical
  have hlow : accum 10 0 (canonical 10 n.natAbs) < 2 ^ 32 := by
    rw [hval]
    omega
  by_cases hneg : n < 0
  · have hwrap : cint (u32 (-(n.natAbs : Int))) = n := by
      unfold cint u32
      rw [Int.bmod_def]
      split <;> omega
    rw [signText,if_pos hneg]
    refine (atoi_minus_spell hds hlow).trans ?_
    rw [hval,hwrap]
  · rw [signText,if_neg hneg,List.nil_append]
    refine (atoi_spell hds hlow).trans ?_
    rw [hval,cint_of_nat (by omega)]
    omega

end

theorem arg_u32 {n : Int} (h0 : -2 ^ 31 ≤ n) (h1 : n < 2 ^ 31) : Conv.d.arg (u32 n) = n := by
  dsimp only [Conv.arg]
  unfold cint u32
  rw [Int.bmod_def]
  split <;> omega

theorem text_nonzero {n : Int} : ∀ c ∈ signText n ++ numText .d n, c ≠ 0 := by
  intro c hc
  rw [List.mem_append] at hc
  rcases hc with hc | hc
  · unfold signText at hc
    split at hc
    · obtain rfl : c = '-'.toUInt8 := by simpa [chars] using hc
      decide
    · cases hc
  · rw [numText,spell,List.mem_map] at hc
    obtain ⟨d,hd,rfl⟩ := hc
    exact digitChar_ne_zero d (Nat.lt_trans (Numeral.canonical_lt (by decide) d hd) (by decide))

theorem text_length {n : Int} (h0 : -2 ^ 31 ≤ n) (h1 : n < 2 ^ 31) :
    (signText n ++ numText .d n).length ≤ 11 := by
  have hlen : (numText .d n).length ≤ 10 := by
    rw [numText,spell,List.length_map]
    exact Numeral.canonical_length (by decide) (by decide)
      (Nat.lt_of_le_of_lt (by omega : n.natAbs ≤ 2 ^ 31) (by decide))
  have hsign := signText_length n
  rw [List.length_append]
  omega

def percentD : Text := chars ['%', 'd']

theorem snprintf_percentD {n : Int} (h0 : -2 ^ 31 ≤ n) (h1 : n < 2 ^ 31) {size : Nat}
    (hsize : 12 ≤ size) (stack buf : Mem) :
    ∃ count buf', snprintf stack buf size percentD [.word (u32 n)] = .ok (count, buf') ∧
      Holds buf' 0 (signText n ++ numText .d n ++ [0]) := by
  have hlen := text_length h0 h1
  obtain ⟨count,hrun⟩ := @vprintf_field _ _ snprintfSend_appends stack
    ⟨buf,if size = 0 then 0 else size - 1,0⟩ .d _ (u32_lt n) [] 0 _ _ (by decide) rfl
  have hpad : padded 0 false ' '.toUInt8 (signText n) [] (numText .d n) =
      signText n ++ numText .d n := by
    simp [padded]
  rw [arg_u32 h0 h1,hpad,if_neg (by omega)] at hrun
  obtain ⟨buf',hfit,hholds,-⟩ := @snprintfSend_fits buf (size - 1) 0
    (signText n ++ numText .d n) (by omega)
  refine ⟨count,update buf' (signText n ++ numText .d n).length 0,?_,hholds.terminate⟩
  unfold snprintf vsnprintf
  rw [if_neg (by omega)]
  have hfmt : percentD = '%'.toUInt8 :: ([] ++ [Conv.d.char]) := rfl
  rw [hfmt,hrun,ok_bind,hfit]
  dsimp only
  rw [if_pos (by omega),Nat.zero_add]

structure Canonical (base num : Nat) (txt : Text) : Prop where
  reads : Numeral.natOf (digitVal base) base txt = some num
  leading : txt.head? = some '0'.toUInt8 → txt = chars ['0']

theorem canonical_spell {base num : Nat} (h2 : 1 < base) (h16 : base ≤ 16) :
    Canonical base num (spell (canonical base num)) := by
  have hlt : ∀ d ∈ canonical base num, d < base := Numeral.canonical_lt h2
  refine ⟨?_,fun h => ?_⟩
  · refine (Numeral.natOf_spell (fun d hd => digitVal_digitChar base h16 d (hlt d hd))
      Numeral.canonical_ne_nil).trans ?_
    rw [Numeral.value_canonical]
  · have hzero : ∀ d < 16, digitChar d = '0'.toUInt8 → d = 0 := by decide
    rw [spell,List.head?_map,Option.map_eq_some_iff] at h
    obtain ⟨d,hd,hchar⟩ := h
    have hmem : d ∈ canonical base num := List.mem_of_mem_head? hd
    obtain rfl := hzero d (Nat.lt_of_lt_of_le (hlt d hmem) h16) hchar
    rw [Numeral.canonical_head hd]
    rfl

theorem numbers_survive_printing {base num : Nat} (hbase : base = 8 ∨ base = 10 ∨ base = 16)
    (hnum : num < 2 ^ 32) {n : Int} (h0 : -2 ^ 31 ≤ n) (h1 : n < 2 ^ 31) {size : Nat}
    (hsize : 12 ≤ size) (stack buf : Mem) :
    (∃ txt, pfDigits base num stack = .ok txt ∧ Canonical base num txt ∧
        ∀ {σ : Type} (send : σ → Text → σ) (pf : Pf σ), pf.base = base → pf.num = num →
          pfPrintnum send stack pf =
            .ok (pfPrintstuff send pf (signPrefix1 pf) (basePrefix1 pf) txt)) ∧
      ∃ count buf', snprintf stack buf size percentD [.word (u32 n)] = .ok (count, buf') ∧
        (∃ i < size, buf' i = 0) ∧ atoi (CString.scan buf' 0 size) = n := by
  have h8 : 8 ≤ base := by omega
  have h16 : base ≤ 16 := by omega
  constructor
  · have hdigits := pfDigits_eq h8 h16 hnum stack
    refine ⟨_,hdigits,canonical_spell (by omega) h16,fun send pf hb hn => ?_⟩
    rw [pfPrintnum,hb,hn,hdigits,ok_bind]
  · have hlen := text_length h0 h1
    obtain ⟨count,buf',hrun,hholds⟩ := snprintf_percentD h0 h1 hsize stack buf
    have hend := hholds (signText n ++ numText .d n).length (by simp)
    refine ⟨count,buf',hrun,⟨(signText n ++ numText .d n).length,by omega,?_⟩,?_⟩
    · rw [Nat.zero_add] at hend
      rw [hend]
      simp
    · rw [scan_holds hholds text_nonzero (by omega)]
      exact atoi_numText h0 h1

theorem most_negative_survives_printing :
    Canonical 8 (2 ^ 32 - 1) (spell (canonical 8 (2 ^ 32 - 1))) ∧
      ∃ count buf', snprintf zeros zeros 12 percentD [.word (u32 (-2 ^ 31))] = .ok (count, buf') ∧
        atoi (CString.scan buf' 0 12) = -2 ^ 31 := by
  obtain ⟨-,count,buf',hrun,-,hatoi⟩ := @numbers_survive_printing 8 (2 ^ 32 - 1) (.inl rfl)
    (by decide) (-2 ^ 31) (by decide) (by decide) 12 (by decide) zeros zeros
  exact ⟨canonical_spell (by decide) (by decide),count,buf',hrun,hatoi⟩

end OS161.Libc
