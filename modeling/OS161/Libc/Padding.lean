import OS161.Libc.PrintNum

namespace OS161.Libc

open Numeral (canonical accum)

inductive Flag where
  | minus
  | zero
  deriving DecidableEq, Repr

def Flag.char : Flag → Byte
  | minus => '-'.toUInt8
  | zero => '0'.toUInt8

def widthText (width : Nat) : Text := if width = 0 then [] else spell (canonical 10 width)

def modifiers (flags : List Flag) (width : Nat) : Text := flags.map Flag.char ++ widthText width

def conversion (flags : List Flag) (width : Nat) (c : Conv) : Text :=
  '%'.toUInt8 :: (modifiers flags width ++ [c.char])

def emitted (stack : Mem) (format : Text) (w : Nat) : Except Fault Text := do
  let (_, txt) ← vprintf (fun (out : Text) txt => out ++ txt) stack [] format [.word w]
  .ok txt

section
variable {σ : Type} {send : σ → Text → σ} {clientdata : σ} {ap : List Arg} {stack : Mem}

theorem pfSend_modifier {spacing : Int} {rightspc : Bool} {fillchar ch : Byte} (h0 : ch ≠ 0)
    (h : ch ∈ chars ['#', '-', 'q', 'l', '0', '1', '2', '3', '4', '5', '6', '7', '8', '9']) :
    pfSend send stack (pfField clientdata ap spacing rightspc fillchar) ch =
      pfModifier (pfField clientdata ap spacing rightspc fillchar) ch := by
  have hpct : (pfField clientdata ap spacing rightspc fillchar).inPct = true := rfl
  unfold pfSend
  rw [if_neg h0,if_neg (by simp [hpct]),if_neg (by simp [hpct]),if_pos h]

theorem pfSend_flag (flag : Flag) {rightspc : Bool} {fillchar : Byte} :
    pfSend send stack (pfField clientdata ap 0 rightspc fillchar) flag.char =
      .ok (pfField clientdata ap 0 (rightspc || flag = .minus)
        (if flag = .zero then '0'.toUInt8 else fillchar)) := by
  cases flag with
  | minus =>
    rw [pfSend_modifier (by decide) (by decide),pfModifier,if_neg (by decide),if_pos (by decide)]
    simp [pfField]
  | zero =>
    rw [pfSend_modifier (by decide) (by decide),pfModifier,if_neg (by decide),
      if_neg (by decide),if_neg (by decide),if_neg (by decide),if_pos (by decide)]
    simp [pfField]

theorem pfSends_flags (flags : List Flag) {rightspc : Bool} {fillchar : Byte} :
    pfSends send stack (flags.map Flag.char) (pfField clientdata ap 0 rightspc fillchar) =
      .ok (pfField clientdata ap 0 (rightspc || decide (Flag.minus ∈ flags))
        (if Flag.zero ∈ flags then '0'.toUInt8 else fillchar)) := by
  induction flags generalizing rightspc fillchar with
  | nil => simp [pfSends]
  | cons flag flags ih =>
    rw [List.map_cons,pfSends,pfSend_flag,ok_bind,ih]
    cases flag <;> simp

theorem digit_kinds : ∀ d < 10, digitChar d ≠ 0 ∧
    digitChar d ∈ chars ['#', '-', 'q', 'l', '0', '1', '2', '3', '4', '5', '6', '7', '8', '9'] ∧
    digitChar d ≠ '#'.toUInt8 ∧ digitChar d ≠ '-'.toUInt8 ∧ digitChar d ≠ 'l'.toUInt8 ∧
    digitChar d ≠ 'q'.toUInt8 ∧ (digitChar d = '0'.toUInt8 ↔ d = 0) ∧
    (d ≠ 0 → '0'.toUInt8 < digitChar d ∧ digitChar d ≤ '9'.toUInt8) ∧
    (digitChar d).toNat - 48 = d := by
  decide

theorem pfSend_digit {d acc : Nat} (hd : d < 10) (hfirst : acc = 0 → d ≠ 0)
    (hlow : acc * 10 + d < 2 ^ 31) {rightspc : Bool} {fillchar : Byte} :
    pfSend send stack (pfField clientdata ap acc rightspc fillchar) (digitChar d) =
      .ok (pfField clientdata ap (acc * 10 + d : Nat) rightspc fillchar) := by
  obtain ⟨h0,hmod,h1,h2,h3,h4,hzero,hdigit,hval⟩ := digit_kinds d hd
  rw [pfSend_modifier h0 hmod,pfModifier,if_neg h1,if_neg h2,if_neg h3,if_neg h4]
  by_cases hz : d = 0
  · have hpos : 0 < (pfField clientdata ap (acc : Int) rightspc fillchar).spacing := by
      dsimp only [pfField]
      omega
    have hnext : cint ((acc : Int) * 10) = (acc * 10 + d : Nat) := by
      rw [← cint_of_nat hlow,hz]
      rfl
    rw [if_pos (hzero.mpr hz),if_pos hpos]
    dsimp only [pfField]
    rw [hnext]
  · have hnext : cint ((acc : Int) * 10 + ((digitChar d).toNat - 48 : Nat)) =
        (acc * 10 + d : Nat) := by
      rw [hval,← cint_of_nat hlow]
      congr 1
    rw [if_neg fun h => hz (hzero.mp h),if_pos (hdigit hz)]
    dsimp only [pfField]
    rw [hnext]

theorem pfSends_digits {ds : List Nat} {acc : Nat} (hds : ∀ d ∈ ds, d < 10)
    (hfirst : acc = 0 → ds.head? ≠ some 0) (hlow : accum 10 acc ds < 2 ^ 31) {rightspc : Bool}
    {fillchar : Byte} :
    pfSends send stack (spell ds) (pfField clientdata ap acc rightspc fillchar) =
      .ok (pfField clientdata ap (accum 10 acc ds : Nat) rightspc fillchar) := by
  induction ds generalizing acc with
  | nil => rfl
  | cons d ds ih =>
    have hd := hds d List.mem_cons_self
    have hne : acc = 0 → d ≠ 0 := fun h hz => hfirst h (by rw [hz]; rfl)
    rw [Numeral.accum_cons] at hlow ⊢
    have hle : acc * 10 + d ≤ accum 10 (acc * 10 + d) ds := Numeral.le_accum (by decide)
    rw [spell,List.map_cons,pfSends,pfSend_digit hd hne (by omega),ok_bind]
    refine ih (fun e he => hds e (List.mem_cons_of_mem _ he)) (fun h => ?_) hlow
    exact absurd h (by omega)

theorem pfSends_width {width : Nat} (hw : width < 2 ^ 31) {rightspc : Bool} {fillchar : Byte} :
    pfSends send stack (widthText width) (pfField clientdata ap 0 rightspc fillchar) =
      .ok (pfField clientdata ap width rightspc fillchar) := by
  unfold widthText
  by_cases h0 : width = 0
  · rw [if_pos h0,h0]
    rfl
  · have hval : accum 10 0 (canonical 10 width) = width := Numeral.value_canonical
    rw [if_neg h0]
    refine (@pfSends_digits σ send clientdata ap stack (canonical 10 width) 0
      (Numeral.canonical_lt (by decide)) (fun _ hz => h0 (Numeral.canonical_head hz))
      (by rw [hval]; exact hw) rightspc fillchar).trans ?_
    rw [hval]

theorem pfSends_modifiers (flags : List Flag) {width : Nat} (hw : width < 2 ^ 31) :
    pfSends send stack (modifiers flags width) (pfField clientdata ap 0 false ' '.toUInt8) =
      .ok (pfField clientdata ap width (decide (Flag.minus ∈ flags))
        (if Flag.zero ∈ flags then '0'.toUInt8 else ' '.toUInt8)) := by
  rw [modifiers,pfSends_append,pfSends_flags,ok_bind,pfSends_width hw,Bool.false_or]

end

section Text
variable {flags : List Flag} {width w : Nat} (c : Conv)

def plainText (c : Conv) (w : Nat) : Text := signText (c.arg w) ++ numText c (c.arg w)

def paddedText (flags : List Flag) (width : Nat) (c : Conv) (w : Nat) : Text :=
  padded width (decide (Flag.minus ∈ flags))
    (if Flag.zero ∈ flags then '0'.toUInt8 else ' '.toUInt8) (signText (c.arg w)) []
    (numText c (c.arg w))

theorem emitted_conversion (stack : Mem) (flags : List Flag) (hwidth : width < 2 ^ 31)
    (hw : w < 2 ^ 32) :
    emitted stack (conversion flags width c) w = .ok (paddedText flags width c w) := by
  have hsend : Appends fun (out : Text) txt => out ++ txt := ⟨List.append_assoc⟩
  obtain ⟨count,hrun⟩ := vprintf_field hsend stack [] c hw hwidth (pfSends_modifiers flags hwidth)
  rw [emitted,conversion,hrun,ok_bind]
  rfl

theorem paddedText_plain : paddedText [] 0 c w = plainText c w := by
  simp [paddedText,padded,plainText]

theorem paddedText_length :
    (paddedText flags width c w).length = max width (plainText c w).length := by
  unfold paddedText padded plainText
  split_ifs <;> simp only [List.length_append,List.length_replicate,List.length_nil] <;> omega

def zerosAfter (flags : List Flag) (width : Nat) (c : Conv) (w : Nat) : Nat :=
  if Flag.minus ∈ flags ∧ Flag.zero ∈ flags then width - (plainText c w).length else 0

def zerosBefore (flags : List Flag) (width : Nat) (c : Conv) (w : Nat) : Nat :=
  if Flag.minus ∉ flags ∧ Flag.zero ∈ flags then width - (plainText c w).length else 0

theorem spell_append (ds es : List Nat) : spell (ds ++ es) = spell ds ++ spell es :=
  List.map_append

theorem spell_zeros (k : Nat) : spell (List.replicate k 0) = List.replicate k '0'.toUInt8 :=
  List.map_replicate

def notSpace (ch : Byte) : Bool := ch ≠ ' '.toUInt8

theorem filter_spell {ds : List Nat} (h : ∀ d ∈ ds, d < 16) :
    (spell ds).filter notSpace = spell ds := by
  have hchar : ∀ d < 16, notSpace (digitChar d) = true := by decide
  refine List.filter_eq_self.mpr fun ch hch => ?_
  rw [spell,List.mem_map] at hch
  obtain ⟨d,hd,rfl⟩ := hch
  exact hchar d (h d hd)

theorem filter_signText (v : Int) : (signText v).filter notSpace = signText v := by
  unfold signText
  split
  · decide
  · rfl

theorem filter_spaces (k : Nat) : (List.replicate k ' '.toUInt8).filter notSpace = [] := by
  rw [List.filter_replicate]
  exact if_neg (by decide)

theorem canonical_lt_16 (v : Int) : ∀ d ∈ canonical c.base v.natAbs, d < 16 := by
  obtain ⟨h8,h16⟩ := c.base_le
  intro d hd
  exact Nat.lt_of_lt_of_le (Numeral.canonical_lt (by omega) d hd) h16

theorem zeros_lt_16 (k : Nat) : ∀ d ∈ List.replicate k 0, d < 16 := by
  intro d hd
  rw [List.eq_of_mem_replicate hd]
  decide

theorem paddedText_read :
    (paddedText flags width c w).filter notSpace =
      signText (c.arg w) ++ spell (List.replicate (zerosBefore flags width c w) 0 ++
        canonical c.base (c.arg w).natAbs ++ List.replicate (zerosAfter flags width c w) 0) := by
  have hnum := filter_spell (canonical_lt_16 c (c.arg w))
  have hz (k : Nat) := filter_spell (zeros_lt_16 k)
  have hlen : width - ((signText (c.arg w)).length + ([] : Text).length +
      (numText c (c.arg w)).length) = width - (plainText c w).length := by
    simp [plainText]
  have hfill (k : Nat) : (List.replicate k '0'.toUInt8).filter notSpace = spell (List.replicate k 0) := by
    rw [← spell_zeros,hz]
  unfold paddedText padded zerosBefore zerosAfter
  rw [hlen]
  have hspace : ' '.toUInt8 ≠ '0'.toUInt8 := by decide
  by_cases hzero : Flag.zero ∈ flags <;> by_cases hminus : Flag.minus ∈ flags <;>
    simp only [hzero,hminus,hspace,decide_true,decide_false,if_true,if_false,and_self,
      not_true_eq_false,not_false_eq_true,false_and,and_false,Bool.false_eq_true,
      List.filter_append,filter_signText,filter_spaces,List.append_nil,hfill,spell_append,
      List.replicate_zero,List.nil_append,numText,hnum,List.append_assoc]

theorem intOf_signed {base : Nat} (h16 : base ≤ 16) (v : Int) {ds : List Nat}
    (hds : ∀ d ∈ ds, d < base) (hne : ds ≠ []) :
    Numeral.intOf (digitVal base) base '-'.toUInt8 (signText v ++ spell ds) =
      some (if v < 0 then -(Numeral.value base ds : Int) else Numeral.value base ds) := by
  have hval : ∀ d ∈ ds, digitVal base (digitChar d) = some d := fun d hd =>
    digitVal_digitChar base h16 d (hds d hd)
  unfold signText
  split
  · refine (Numeral.intOf_neg (spell ds)).trans ?_
    rw [spell,Numeral.natOf_spell hval hne]
    rfl
  · exact Numeral.intOf_spell hval
      (fun d hd => digitChar_ne_minus d (Nat.lt_of_lt_of_le (hds d hd) h16)) hne

theorem paddedText_value :
    Numeral.intOf (digitVal c.base) c.base '-'.toUInt8
        ((paddedText flags width c w).filter notSpace) =
      some (c.arg w * (c.base ^ zerosAfter flags width c w : Nat)) := by
  obtain ⟨h8,h16⟩ := c.base_le
  have hlt : ∀ d ∈ List.replicate (zerosBefore flags width c w) 0 ++
      canonical c.base (c.arg w).natAbs ++ List.replicate (zerosAfter flags width c w) 0,
      d < c.base := by
    intro d hd
    simp only [List.mem_append,List.mem_replicate] at hd
    rcases hd with (hd | hd) | hd
    · omega
    · exact Numeral.canonical_lt (by omega) d hd
    · omega
  have hne : List.replicate (zerosBefore flags width c w) 0 ++
      canonical c.base (c.arg w).natAbs ++ List.replicate (zerosAfter flags width c w) 0 ≠ [] := by
    simp [Numeral.canonical_ne_nil]
  rw [paddedText_read,intOf_signed h16 (c.arg w) hlt hne,Numeral.value_append_zeros,
    Numeral.value_zeros_append,Numeral.value_canonical,Nat.cast_mul]
  split
  · rw [← Int.neg_mul]
    congr 2
    omega
  · congr 2
    omega

end Text

structure Pads (stack : Mem) (flags : List Flag) (width : Nat) (c : Conv) (w : Nat) : Prop where
  text : ∃ txt plain, emitted stack (conversion flags width c) w = .ok txt ∧
    emitted stack (conversion [] 0 c) w = .ok plain ∧ txt.length = max width plain.length ∧
    Numeral.intOf (digitVal c.base) c.base '-'.toUInt8 (txt.filter notSpace) = some (c.arg w)

theorem mul_pow_eq_self_iff {v : Int} {base k : Nat} (hb : 1 < base) :
    v * (base ^ k : Nat) = v ↔ v = 0 ∨ k = 0 := by
  rw [mul_right_eq_self₀,Nat.cast_eq_one,Nat.pow_eq_one,or_comm]
  simp [Nat.ne_of_gt hb]

theorem zerosAfter_eq_zero_iff {flags : List Flag} {width w : Nat} {c : Conv} :
    zerosAfter flags width c w = 0 ↔
      ¬ (Flag.minus ∈ flags ∧ Flag.zero ∈ flags ∧ (plainText c w).length < width) := by
  unfold zerosAfter
  split
  · rename_i h
    simp only [h.1,h.2,true_and]
    omega
  · rename_i h
    simp only [true_iff]
    exact fun hall => h ⟨hall.1,hall.2.1⟩

theorem pads_iff_value (stack : Mem) (flags : List Flag) {width : Nat} (hwidth : width < 2 ^ 31)
    (c : Conv) {w : Nat} (hw : w < 2 ^ 32) : Pads stack flags width c w ↔
      c.arg w * (c.base ^ zerosAfter flags width c w : Nat) = c.arg w := by
  have htext := emitted_conversion c stack flags hwidth hw
  have hplain : emitted stack (conversion [] 0 c) w = .ok (plainText c w) := by
    rw [emitted_conversion c stack [] (by decide) hw,paddedText_plain]
  constructor
  · rintro ⟨txt,plain,ht,-,-,hread⟩
    cases htext.symm.trans ht
    rw [paddedText_value,Option.some_inj] at hread
    exact hread
  · intro h
    refine ⟨_,_,htext,hplain,paddedText_length c,?_⟩
    rw [paddedText_value,h]

theorem padding_keeps_number_iff (stack : Mem) (flags : List Flag) {width : Nat}
    (hwidth : width < 2 ^ 31) (c : Conv) {w : Nat} (hw : w < 2 ^ 32) :
    Pads stack flags width c w ↔
      ¬ (Flag.minus ∈ flags ∧ Flag.zero ∈ flags ∧ (plainText c w).length < width ∧ c.arg w ≠ 0) := by
  have hb : 1 < c.base := Nat.lt_of_lt_of_le (by decide) c.base_le.1
  rw [pads_iff_value stack flags hwidth c hw,mul_pow_eq_self_iff hb,zerosAfter_eq_zero_iff]
  by_cases h0 : c.arg w = 0
  · simp [h0]
  · simp [h0]

theorem padding_keeps_zero_filled : Pads zeros [.zero] 5 .d 42 :=
  (padding_keeps_number_iff zeros [.zero] (by decide) .d (by decide)).mpr (by decide)

theorem padding_appends_zeros :
    conversion [.minus, .zero] 5 .d = chars ['%', '-', '0', '5', 'd'] ∧
      (emitted zeros (chars ['%', '-', '0', '5', 'd']) 5).toOption =
        some (chars ['5', '0', '0', '0', '0']) ∧
      ¬ Pads zeros [.minus, .zero] 5 .d 5 := by
  refine ⟨?_,by decide +kernel,fun h => ?_⟩
  · rw [conversion,modifiers,widthText,if_neg (by decide),
      Numeral.canonical_last (by decide) (by decide)]
    rfl
  · have hvalue := (pads_iff_value zeros _ (by decide) .d (by decide)).mp h
    exact absurd hvalue (by decide +kernel)

end OS161.Libc
