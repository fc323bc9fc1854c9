import Arcal.Json.Externalizer

/-! Integers between a JSON literal and a field: the literal is stored in one of two 64-bit
types, or in neither, before `parse_value` tests the range of its target. -/

namespace Arcal.Json

open Schema

structure IsInteger (literal : Bytes) : Prop where
  number : JsonText.isNumber literal = true
  digits : (JsonText.magnitude literal).all Decimal.isDigit = true

def integerValue (literal : Bytes) : Int :=
  if literal.head? = some JsonText.minus then -(Decimal.value (JsonText.magnitude literal) : Int)
  else Decimal.value (JsonText.magnitude literal)

/-- `std::numeric_limits<T>::min()` and `max()` of an integral type. -/
def limits : CxxType → Option (Int × Int)
  | .int8 => some (-2 ^ 7, 2 ^ 7 - 1)
  | .int16 => some (-2 ^ 15, 2 ^ 15 - 1)
  | .int32 => some (-2 ^ 31, 2 ^ 31 - 1)
  | .int64 => some (-2 ^ 63, 2 ^ 63 - 1)
  | .uint8 => some (0, 2 ^ 8 - 1)
  | .uint16 => some (0, 2 ^ 16 - 1)
  | .uint32 => some (0, 2 ^ 32 - 1)
  | .uint64 => some (0, 2 ^ 64 - 1)
  | _ => none

def numeral : (t : CxxType) → t.Value → Int
  | .int8, v => Int8.toInt v
  | .int16, v => Int16.toInt v
  | .int32, v => Int32.toInt v
  | .int64, v => Int64.toInt v
  | .uint8, v => (UInt8.toNat v : Int)
  | .uint16, v => (UInt16.toNat v : Int)
  | .uint32, v => (UInt32.toNat v : Int)
  | .uint64, v => (UInt64.toNat v : Int)
  | _, _ => 0

/-- A value is returned exactly when the number lies between the limits, and it is that
number. -/
def TakesExactly {α : Type} (parse : Bytes → Except Exc α) (numeral : α → Int)
    (least greatest n : Int) : Prop :=
  ∀ context, ((∃ v, parse context = .ok v) ↔ least ≤ n ∧ n ≤ greatest) ∧
    ∀ v, parse context = .ok v → numeral v = n

section Stored

variable {fp : Floating} {literal : Bytes}

/-- Where an integer literal is kept between the parser and `parse_value`. -/
inductive StoredAs (fp : Floating) (literal : Bytes) : Prop
  | unsigned (n : Nat) (small : n < 2 ^ 64) (value : integerValue literal = n)
      (kept : stored fp literal = some (.unsigned (UInt64.ofNat n)))
  | negative (n : Nat) (small : n ≤ 2 ^ 63) (value : integerValue literal = -n)
      (kept : stored fp literal = some (.integer (Int64.ofInt (-n))))
  | neither (outside : integerValue literal < -2 ^ 63 ∨ 2 ^ 64 ≤ integerValue literal)
      (kept : stored fp literal = (fp.strtod literal).map Number.floating)

theorem IsInteger.storedAs (fp : Floating) (integer : IsInteger literal) :
    StoredAs fp literal := by
  have digits := integer.digits
  generalize size : Decimal.value (JsonText.magnitude literal) = n
  by_cases negative : literal.head? = some JsonText.minus
  · have value : integerValue literal = -(n : Int) := by rw [integerValue, if_pos negative, size]
    by_cases fits : n ≤ 2 ^ 63
    · refine .negative n fits value ?_
      simp only [stored, digits, negative, size, fits, and_self, if_true]
    · refine .neither (Or.inl (by omega)) ?_
      simp only [stored, digits, negative, size, fits, and_false, not_true_eq_false, false_and,
        if_false]
  · have value : integerValue literal = (n : Int) := by rw [integerValue, if_neg negative, size]
    by_cases fits : n < 2 ^ 64
    · refine .unsigned n fits value ?_
      simp only [stored, digits, negative, size, fits, and_self, false_and, and_false,
        not_false_eq_true, if_true, if_false]
    · refine .neither (Or.inr (by omega)) ?_
      simp only [stored, digits, negative, size, fits, and_false, false_and, if_false]

/-- What fits 64 bits, signed or unsigned, is taken as a signed number modulo 2^64. -/
theorem getInt64_stored (integer : IsInteger literal) :
    (number fp (.number literal)).bind getInt64 =
      if -2 ^ 63 ≤ integerValue literal ∧ integerValue literal < 2 ^ 64 then
        some (Int64.ofInt (integerValue literal))
      else none := by
  cases integer.storedAs fp with
  | unsigned n small value kept =>
      have inside : -2 ^ 63 ≤ (n : Int) ∧ (n : Int) < 2 ^ 64 := by omega
      simp only [number, kept, value, inside, and_self, if_true, Option.bind_some, getInt64]
      rw [UInt64.toInt64_ofNat', Int64.ofInt_eq_ofNat]
  | negative n small value kept =>
      have inside : -2 ^ 63 ≤ -(n : Int) ∧ -(n : Int) < 2 ^ 64 := by omega
      simp only [number, kept, value, inside, and_self, if_true, Option.bind_some, getInt64]
  | neither outside kept =>
      have beyond : ¬ (-2 ^ 63 ≤ integerValue literal ∧ integerValue literal < 2 ^ 64) := by omega
      simp only [number, kept, if_neg beyond]
      cases fp.strtod literal with
      | none => rfl
      | some bits => rfl

theorem parseSigned_ok_iff (integer : IsInteger literal) {least greatest : Int} {context : Bytes}
    {v : Int64} : parseSigned fp least greatest (.number literal) context = .ok v ↔
      (-2 ^ 63 ≤ integerValue literal ∧ integerValue literal < 2 ^ 64) ∧
        v = Int64.ofInt (integerValue literal) ∧ least ≤ v.toInt ∧ v.toInt ≤ greatest := by
  rw [parseSigned, getInt64_stored integer]
  by_cases fits : -2 ^ 63 ≤ integerValue literal ∧ integerValue literal < 2 ^ 64
  · simp only [if_pos fits]
    constructor
    · intro parsed
      split at parsed
      · cases parsed
      · next inside =>
        injection parsed with same
        subst same
        exact ⟨fits, rfl, by omega⟩
    · rintro ⟨_, rfl, inside⟩
      have within : ¬ ((Int64.ofInt (integerValue literal)).toInt < least ∨
          greatest < (Int64.ofInt (integerValue literal)).toInt) := by omega
      exact if_neg within
  · rw [if_neg fits]
    constructor
    · intro parsed
      cases parsed
    · intro given
      exact absurd given.1 fits

theorem parseUnsigned_ok_iff (integer : IsInteger literal) {greatest : Nat}
    (small : greatest < 2 ^ 64) {context : Bytes} {v : UInt64} :
    parseUnsigned fp greatest (.number literal) context = .ok v ↔
      (v.toNat : Int) = integerValue literal ∧ integerValue literal ≤ greatest := by
  have bound := v.toNat_lt
  cases integer.storedAs fp with
  | unsigned n fits value kept =>
      have whole : (UInt64.ofNat n).toNat = n := by
        rw [UInt64.toNat_ofNat', Nat.mod_eq_of_lt fits]
      simp only [parseUnsigned, number, kept, value, bind, Except.bind, whole]
      constructor
      · intro parsed
        split at parsed
        · cases parsed
        · injection parsed with same
          subst same
          omega
      · intro given
        have inside : ¬ greatest < n := by omega
        have same : UInt64.ofNat n = v := by
          rw [← UInt64.toNat_inj, whole]
          omega
        rw [if_neg inside, same]
  | negative n fits value kept =>
      have whole : (Int64.ofInt (-(n : Int))).toInt = -n :=
        Int64.toInt_ofInt_of_le (by omega) (by omega)
      have below : Int64.ofInt (-(n : Int)) < 0 ↔ 0 < n := by
        rw [Int64.lt_iff_toInt_lt, whole, Int64.toInt_zero]
        omega
      by_cases zero : n = 0
      · subst zero
        have first : (Int64.ofInt (-((0 : Nat) : Int))).toUInt64 = 0 := by decide
        have kept' : ¬ greatest < (0 : UInt64).toNat := Nat.not_lt_zero _
        simp only [parseUnsigned, number, kept, value, bind, Except.bind, below, first,
          Nat.lt_irrefl, if_false, if_neg kept', Except.ok.injEq]
        rw [← UInt64.toNat_inj, UInt64.toNat_zero]
        omega
      · have positive : 0 < n := Nat.pos_of_ne_zero zero
        simp only [parseUnsigned, number, kept, value, bind, Except.bind, below, positive,
          if_true]
        constructor
        · exact fun parsed => by cases parsed
        · intro given
          omega
  | neither outside kept =>
      have refused : ∀ v, parseUnsigned fp greatest (.number literal) context ≠ .ok v := by
        intro v
        simp only [parseUnsigned, number, kept]
        cases fp.strtod literal with
        | none => exact fun parsed => by cases parsed
        | some bits => exact fun parsed => by cases parsed
      constructor
      · exact fun parsed => absurd parsed (refused v)
      · intro given
        omega

end Stored

section Ranges

variable (fp : Floating) {literal : Bytes} {α : Type}

theorem returned_iff {β : Type} {parsed : Except Exc β} {cast : β → α} (a : α) :
    (do let v ← parsed
        return cast v) = .ok a ↔ ∃ v, parsed = .ok v ∧ cast v = a := by
  cases parsed with
  | ok v => simp [bind, Except.bind, pure, Except.pure]
  | error e => simp [bind, Except.bind]

theorem toInt_ofInt_high {n : Int} (high : 2 ^ 63 ≤ n) (low : n < 2 ^ 64) :
    (Int64.ofInt n).toInt = n - 2 ^ 64 := by
  rw [Int64.toInt_ofInt, Int.bmod_def]
  have rest : n % (Int64.size : Int) = n := Int.emod_eq_of_lt (by omega) low
  rw [rest, if_neg (by change ¬ n < (2 ^ 64 + 1) / 2; omega)]
  rfl

theorem signed_takesExactly_iff (integer : IsInteger literal) (least greatest : Int)
    (negative : least < 0) (above : -2 ^ 63 ≤ least) (positive : 0 < greatest)
    (below : greatest < 2 ^ 63) (cast : Int64 → α) (numeral : α → Int)
    (keeps : ∀ v : Int64, least ≤ v.toInt → v.toInt ≤ greatest → numeral (cast v) = v.toInt) :
    TakesExactly (fun context => do
        let v ← parseSigned fp least greatest (.number literal) context
        return cast v) numeral least greatest (integerValue literal) ↔
      ¬ (least < 0 ∧ 2 ^ 64 + least ≤ integerValue literal ∧
        integerValue literal < 2 ^ 64) := by
  rw [and_iff_right negative]
  constructor
  · rintro exact' ⟨high, low⟩
    have wrapped := toInt_ofInt_high (n := integerValue literal) (by omega) low
    have parsed : parseSigned fp least greatest (.number literal) [] =
        .ok (Int64.ofInt (integerValue literal)) :=
      (parseSigned_ok_iff integer).mpr ⟨by omega, rfl, by omega, by omega⟩
    have same := (exact' []).2 _ ((returned_iff _).mpr ⟨_, parsed, rfl⟩)
    rw [keeps _ (by omega) (by omega)] at same
    omega
  · intro outside context
    have unwrapped : ∀ v, parseSigned fp least greatest (.number literal) context = .ok v →
        v.toInt = integerValue literal ∧ least ≤ v.toInt ∧ v.toInt ≤ greatest := by
      intro v parsed
      obtain ⟨fits, rfl, inside⟩ := (parseSigned_ok_iff integer).mp parsed
      refine ⟨?_, inside⟩
      by_cases high : 2 ^ 63 ≤ integerValue literal
      · have wrapped := toInt_ofInt_high high fits.2
        omega
      · exact Int64.toInt_ofInt_of_le fits.1 (by omega)
    constructor
    · constructor
      · rintro ⟨a, taken⟩
        obtain ⟨v, parsed, _⟩ := (returned_iff a).mp taken
        have held := unwrapped v parsed
        omega
      · intro inside
        have whole := Int64.toInt_ofInt_of_le (n := integerValue literal) (by omega) (by omega)
        have parsed : parseSigned fp least greatest (.number literal) context =
            .ok (Int64.ofInt (integerValue literal)) :=
          (parseSigned_ok_iff integer).mpr ⟨by omega, rfl, by omega, by omega⟩
        exact ⟨_, (returned_iff _).mpr ⟨_, parsed, rfl⟩⟩
    · intro a taken
      obtain ⟨v, parsed, rfl⟩ := (returned_iff a).mp taken
      have held := unwrapped v parsed
      rw [keeps v held.2.1 held.2.2, held.1]

theorem unsigned_takesExactly_iff (integer : IsInteger literal) (greatest : Nat)
    (small : greatest < 2 ^ 64) (cast : UInt64 → α) (numeral : α → Int)
    (keeps : ∀ v : UInt64, v.toNat ≤ greatest → numeral (cast v) = v.toNat) :
    TakesExactly (fun context => do
        let v ← parseUnsigned fp greatest (.number literal) context
        return cast v) numeral 0 greatest (integerValue literal) ↔
      ¬ ((0 : Int) < 0 ∧ 2 ^ 64 + 0 ≤ integerValue literal ∧ integerValue literal < 2 ^ 64) := by
  refine iff_of_true ?_ fun wrapped => absurd wrapped.1 (by decide)
  intro context
  constructor
  · constructor
    · rintro ⟨a, taken⟩
      obtain ⟨v, parsed, _⟩ := (returned_iff a).mp taken
      have held := (parseUnsigned_ok_iff integer small).mp parsed
      omega
    · intro inside
      have fits : (integerValue literal).toNat < 2 ^ 64 := by omega
      have whole : (UInt64.ofNat (integerValue literal).toNat).toNat =
          (integerValue literal).toNat := by
        rw [UInt64.toNat_ofNat', Nat.mod_eq_of_lt fits]
      have parsed : parseUnsigned fp greatest (.number literal) context =
          .ok (UInt64.ofNat (integerValue literal).toNat) :=
        (parseUnsigned_ok_iff integer small).mpr ⟨by omega, inside.2⟩
      exact ⟨_, (returned_iff _).mpr ⟨_, parsed, rfl⟩⟩
  · intro a taken
    obtain ⟨v, parsed, rfl⟩ := (returned_iff a).mp taken
    have held := (parseUnsigned_ok_iff integer small).mp parsed
    rw [keeps v (by omega)]
    exact held.1

end Ranges

/-- An integral target takes an integer literal exactly when it fits, unless the target is
signed and the literal lies as far below 2^64 as a value of the target lies below zero. -/
theorem parseValue_takesExactly_iff (fp : Floating) {t : CxxType} {least greatest : Int}
    (integral : limits t = some (least, greatest)) {literal : Bytes}
    (integer : IsInteger literal) :
    TakesExactly (parseValue fp t (.number literal)) (numeral t) least greatest
        (integerValue literal) ↔
      ¬ (least < 0 ∧ 2 ^ 64 + least ≤ integerValue literal ∧ integerValue literal < 2 ^ 64) := by
  cases t with
  | int8 =>
      cases integral
      refine signed_takesExactly_iff fp integer (-2 ^ 7) (2 ^ 7 - 1) (by omega) (by omega) (by omega)
        (by omega) Int64.toInt8 Int8.toInt fun v low high => ?_
      rw [Int64.toInt_toInt8]
      exact Int.bmod_eq_of_le (by omega) (by omega)
  | int16 =>
      cases integral
      refine signed_takesExactly_iff fp integer (-2 ^ 15) (2 ^ 15 - 1) (by omega) (by omega)
        (by omega) (by omega) Int64.toInt16 Int16.toInt fun v low high => ?_
      rw [Int64.toInt_toInt16]
      exact Int.bmod_eq_of_le (by omega) (by omega)
  | int32 =>
      cases integral
      refine signed_takesExactly_iff fp integer (-2 ^ 31) (2 ^ 31 - 1) (by omega) (by omega)
        (by omega) (by omega) Int64.toInt32 Int32.toInt fun v low high => ?_
      rw [Int64.toInt_toInt32]
      exact Int.bmod_eq_of_le (by omega) (by omega)
  | int64 =>
      cases integral
      have whole := signed_takesExactly_iff fp integer (-2 ^ 63) (2 ^ 63 - 1) (by omega)
        (by omega) (by omega) (by omega) id Int64.toInt fun _ _ _ => rfl
      simp only [id_eq, bind_pure] at whole
      exact whole
  | uint8 =>
      cases integral
      refine unsigned_takesExactly_iff fp integer (2 ^ 8 - 1) (by decide) UInt64.toUInt8
        (fun v => (v.toNat : Int)) fun v high => ?_
      rw [UInt64.toNat_toUInt8, Nat.mod_eq_of_lt (by omega)]
  | uint16 =>
      cases integral
      refine unsigned_takesExactly_iff fp integer (2 ^ 16 - 1) (by decide) UInt64.toUInt16
        (fun v => (v.toNat : Int)) fun v high => ?_
      rw [UInt64.toNat_toUInt16, Nat.mod_eq_of_lt (by omega)]
  | uint32 =>
      cases integral
      refine unsigned_takesExactly_iff fp integer (2 ^ 32 - 1) (by decide) UInt64.toUInt32
        (fun v => (v.toNat : Int)) fun v high => ?_
      rw [UInt64.toNat_toUInt32, Nat.mod_eq_of_lt (by omega)]
  | uint64 =>
      cases integral
      have whole := unsigned_takesExactly_iff fp integer (2 ^ 64 - 1) (by decide) id
        (fun v => (v.toNat : Int)) fun _ _ => rfl
      simp only [id_eq, bind_pure] at whole
      exact whole
  | bool => cases integral
  | float => cases integral
  | double => cases integral
  | string => cases integral
  | bytes => cases integral
  | uuid => cases integral

def allOnes : Bytes := utf8 "18446744073709551615"

theorem allOnes_isInteger : IsInteger allOnes where
  number := by decide +kernel
  digits := by decide +kernel

theorem parseValue_takesExactly_uint64 :
    TakesExactly (parseValue sampleFloating .uint64 (.number allOnes)) (numeral .uint64) 0
      (2 ^ 64 - 1) (integerValue allOnes) :=
  (parseValue_takesExactly_iff sampleFloating rfl allOnes_isInteger).mpr
    fun wrapped => absurd wrapped.1 (by decide)

/-- A byte takes the literal too, as minus one. -/
theorem byte_takes_allOnes :
    ¬ TakesExactly (parseValue sampleFloating .int8 (.number allOnes)) (numeral .int8) (-2 ^ 7)
      (2 ^ 7 - 1) (integerValue allOnes) := by
  intro exact'
  have value : integerValue allOnes = 2 ^ 64 - 1 := by decide +kernel
  have taken : parseValue sampleFloating .int8 (.number allOnes) [] = .ok (-1 : Int8) := by rfl
  have same := (exact' []).2 _ taken
  rw [value] at same
  exact absurd same (by decide)

end Arcal.Json
