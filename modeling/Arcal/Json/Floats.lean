import Arcal.Json.Externalizer
import Arcal.Lib.Printf

/-! Single-precision numbers as JSON text. `emit_value(float)` prints with `%g`, at six
significant digits, although telling two floats apart can take nine; `emit_value(double)`
asks for the seventeen a double needs. -/

namespace Arcal.Json

open Schema Significant

def exponentField (bits : UInt32) : ℕ := bits.toNat / 2 ^ 23 % 2 ^ 8

def fractionField (bits : UInt32) : ℕ := bits.toNat % 2 ^ 23

def signBit (bits : UInt32) : Bool := decide (2 ^ 31 ≤ bits.toNat)

def IsFinite (bits : UInt32) : Prop := exponentField bits ≠ 255

instance (bits : UInt32) : Decidable (IsFinite bits) := inferInstanceAs (Decidable (_ ≠ _))

/-- Without the sign: a significand of 24 bits, or of fewer below the normal numbers. -/
def floatMagnitude (bits : UInt32) : ℚ :=
  if exponentField bits = 0 then (fractionField bits : ℚ) * 2 ^ (-149 : ℤ)
  else (2 ^ 23 + fractionField bits : ℚ) * 2 ^ ((exponentField bits : ℤ) - 150)

def floatValue (bits : UInt32) : ℚ :=
  if signBit bits then -floatMagnitude bits else floatMagnitude bits

def unsignedG (q : ℚ) : Bytes := if q = 0 then [Printf.zero] else Printf.magnitude 6 q

def formatG (bits : UInt32) : Bytes :=
  (if signBit bits then [Printf.minus] else []) ++ unsignedG (floatMagnitude bits)

/-- `snprintf` prints finite numbers as the C standard says. -/
def PrintsG (fp : Floating) : Prop := ∀ bits, IsFinite bits → fp.printFloat bits = formatG bits

/-- Different signs, or a zero, or the middle between two neighbouring decimals of six digits
between the magnitudes. -/
def ToldApart (v w : ℚ) : Prop := v * w ≤ 0 ∨ Between 6 |v| |w| ∨ Between 6 |w| |v|

section Texts

variable {x y : UInt32}

theorem floatMagnitude_nonneg (bits : UInt32) : 0 ≤ floatMagnitude bits := by
  unfold floatMagnitude
  split_ifs
  · exact mul_nonneg (Nat.cast_nonneg _) (zpow_nonneg (by norm_num) _)
  · exact mul_nonneg (by positivity) (zpow_nonneg (by norm_num) _)

theorem abs_floatValue (bits : UInt32) : |floatValue bits| = floatMagnitude bits := by
  unfold floatValue
  split_ifs
  · rw [abs_neg, abs_of_nonneg (floatMagnitude_nonneg bits)]
  · exact abs_of_nonneg (floatMagnitude_nonneg bits)

theorem head_unsignedG (q : ℚ) : (unsignedG q).head? ≠ some Printf.minus := by
  unfold unsignedG
  split_ifs
  · decide
  · exact Printf.head_magnitude 6 q

theorem unsignedG_eq_iff {q q' : ℚ} (natural : 0 ≤ q) (natural' : 0 ≤ q') (different : q ≠ q') :
    unsignedG q = unsignedG q' ↔ q * q' ≠ 0 ∧ ¬ (Between 6 q q' ∨ Between 6 q' q) := by
  unfold unsignedG
  by_cases none' : q = 0
  · have some' : 0 < q' := lt_of_le_of_ne natural' (none' ▸ different)
    have apart := Printf.magnitude_ne_zero (p := 5) some'
    simp only [none', if_true, some'.ne', if_false, zero_mul, ne_eq, not_true_eq_false, false_and,
      iff_false]
    exact apart.symm
  · have positive : 0 < q := lt_of_le_of_ne natural (Ne.symm none')
    by_cases none'' : q' = 0
    · have apart := Printf.magnitude_ne_zero (p := 5) positive
      simp only [none'', if_true, none', if_false, mul_zero, ne_eq, not_true_eq_false, false_and,
        iff_false]
      exact apart
    · have positive' : 0 < q' := lt_of_le_of_ne natural' (Ne.symm none'')
      rw [if_neg none', if_neg none'', Printf.magnitude_eq_iff positive positive',
        ← rounded_ne_iff (Nat.succ_pos 5) positive positive', not_not]
      exact ⟨fun same => ⟨mul_ne_zero none' none'', same⟩, fun same => same.2⟩

theorem floatValue_eq (bits : UInt32) :
    floatValue bits = (if signBit bits then -1 else 1) * floatMagnitude bits := by
  unfold floatValue
  split_ifs
  · rw [neg_one_mul]
  · rw [one_mul]

/-- A sign is printed or not, and no magnitude begins like one. -/
theorem formatG_ne_of_sign (other : signBit x ≠ signBit y) : formatG x ≠ formatG y := by
  intro same
  have heads := congrArg List.head? same
  unfold formatG at heads
  cases sign : signBit x with
  | false =>
      have sign' : signBit y = true := by
        cases sign' : signBit y with
        | false => exact absurd (sign.trans sign'.symm) other
        | true => rfl
      simp only [sign, sign', Bool.false_eq_true, if_false, if_true, List.nil_append,
        List.singleton_append, List.head?_cons] at heads
      exact head_unsignedG _ heads
  | true =>
      have sign' : signBit y = false := by
        cases sign' : signBit y with
        | false => rfl
        | true => exact absurd (sign.trans sign'.symm) other
      simp only [sign, sign', Bool.false_eq_true, if_false, if_true, List.nil_append,
        List.singleton_append, List.head?_cons] at heads
      exact head_unsignedG _ heads.symm

theorem formatG_eq_iff (different : floatValue x ≠ floatValue y) :
    formatG x = formatG y ↔ ¬ ToldApart (floatValue x) (floatValue y) := by
  have natural := floatMagnitude_nonneg x
  have natural' := floatMagnitude_nonneg y
  have product := mul_nonneg natural natural'
  rw [ToldApart, abs_floatValue, abs_floatValue, not_or, not_le]
  by_cases sign : signBit x = signBit y
  · have unlike : floatMagnitude x ≠ floatMagnitude y := by
      intro same
      exact different (by rw [floatValue_eq, floatValue_eq, sign, same])
    have values : floatValue x * floatValue y = floatMagnitude x * floatMagnitude y := by
      rw [floatValue_eq, floatValue_eq, sign]
      split_ifs
      · ring
      · ring
    have texts : formatG x = formatG y ↔
        unsignedG (floatMagnitude x) = unsignedG (floatMagnitude y) := by
      rw [formatG, formatG, sign, List.append_cancel_left_eq]
    rw [texts, unsignedG_eq_iff natural natural' unlike, values, lt_iff_le_and_ne,
      and_iff_right product, ne_comm]
  · have values : floatValue x * floatValue y = -(floatMagnitude x * floatMagnitude y) := by
      rw [floatValue_eq, floatValue_eq]
      cases first : signBit x with
      | false =>
          cases second : signBit y with
          | false => exact absurd (first.trans second.symm) sign
          | true => simp
      | true =>
          cases second : signBit y with
          | false => simp
          | true => exact absurd (first.trans second.symm) sign
    refine iff_of_false (formatG_ne_of_sign sign) ?_
    rintro ⟨positive, _⟩
    rw [values] at positive
    linarith

end Texts

/-- Of two different floats the texts differ exactly when six digits tell them apart. -/
theorem emitValue_float_ne_iff {fp : Floating} (prints : PrintsG fp) {x y : UInt32}
    (finite : IsFinite x) (finite' : IsFinite y) (different : floatValue x ≠ floatValue y)
    (out : Bytes) :
    emitValue fp .float x out ≠ emitValue fp .float y out ↔
      ToldApart (floatValue x) (floatValue y) := by
  simp only [emitValue, prints x finite, prints y finite', ne_eq, List.append_cancel_left_eq,
    formatG_eq_iff different, not_not]

/-- Floating-point conversions that print floats as the C library does. -/
def printingFloating : Floating := { sampleFloating with printFloat := formatG }

theorem floatValue_normal {bits : UInt32} {e f : ℕ} (plus : signBit bits = false)
    (field : exponentField bits = e) (normal : e ≠ 0) (fraction : fractionField bits = f) :
    floatValue bits = (2 ^ 23 + f : ℚ) * 2 ^ ((e : ℤ) - 150) := by
  simp only [floatValue, plus, Bool.false_eq_true, if_false, floatMagnitude, field, if_neg normal,
    fraction]

theorem emitValue_float_ne_one_two :
    emitValue printingFloating .float (0x3f800000 : UInt32) [] ≠
      emitValue printingFloating .float (0x40000000 : UInt32) [] := by
  have one : floatValue 0x3f800000 = 1 := by
    rw [floatValue_normal (e := 127) (f := 0) (by decide) (by decide) (by decide) (by decide)]
    norm_num
  have two : floatValue 0x40000000 = 2 := by
    rw [floatValue_normal (e := 128) (f := 0) (by decide) (by decide) (by decide) (by decide)]
    norm_num
  refine (emitValue_float_ne_iff (fun _ _ => rfl) (by decide) (by decide) ?_ []).mpr ?_
  · rw [one, two]
    norm_num
  · rw [one, two]
    right
    left
    refine ⟨100000, -5, by norm_num [Row], ?_, ?_⟩
    · norm_num [UpTo]
    · norm_num [UpTo]

/-- The floats 16777215 and 16777216 have one text, `1.67772e+07`. -/
theorem neighbours_alike :
    IsFinite 0x4b7fffff ∧ IsFinite 0x4b800000 ∧ floatValue 0x4b7fffff ≠ floatValue 0x4b800000 ∧
      emitValue printingFloating .float (0x4b7fffff : UInt32) [] =
        emitValue printingFloating .float (0x4b800000 : UInt32) [] := by
  have first : floatValue 0x4b7fffff = 16777215 := by
    rw [floatValue_normal (e := 150) (f := 8388607) (by decide) (by decide) (by decide)
      (by decide)]
    norm_num
  have second : floatValue 0x4b800000 = 16777216 := by
    rw [floatValue_normal (e := 151) (f := 0) (by decide) (by decide) (by decide) (by decide)]
    norm_num
  have rounds : rounded 6 16777215 = (167772 : ℤ) * 10 ^ (2 : ℤ) :=
    rounded_eq (by norm_num) (by norm_num) (by norm_num) (by norm_num) (by norm_num) (by norm_num)
  have rounds' : rounded 6 16777216 = (167772 : ℤ) * 10 ^ (2 : ℤ) :=
    rounded_eq (by norm_num) (by norm_num) (by norm_num) (by norm_num) (by norm_num) (by norm_num)
  have alike : Printf.magnitude 6 16777215 = Printf.magnitude 6 16777216 :=
    (Printf.magnitude_eq_iff (p := 5) (by norm_num) (by norm_num)).mpr (rounds.trans rounds'.symm)
  refine ⟨by decide, by decide, ?_, ?_⟩
  · rw [first, second]
    norm_num
  · have texts : formatG 0x4b7fffff = formatG 0x4b800000 := by
      rw [formatG, formatG, ← abs_floatValue, ← abs_floatValue, first, second]
      norm_num [unsignedG, alike]
      rfl
    exact texts

end Arcal.Json
