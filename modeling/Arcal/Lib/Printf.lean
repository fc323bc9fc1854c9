import Arcal.Lib.Decimal
import Arcal.Lib.Significant
import Mathlib.Data.List.DropRight

/-! `%g` of the C library: a number at a number of significant digits, with its point in place
or with an exponent, and without zeros at the end. What is written can be read back to the
rounded number, so two texts are equal only where the rounded numbers are. -/

namespace Printf

open Significant

def zero : UInt8 := 0x30
def point : UInt8 := 0x2e
def plus : UInt8 := 0x2b
def minus : UInt8 := 0x2d
def exponentMark : UInt8 := 0x65

/-- Digits before and behind the point. Zeros at the end are removed, and the point with the
last of them. -/
def fixed (whole fraction : List UInt8) : List UInt8 :=
  let kept := fraction.rdropWhile (· == zero)
  if kept = [] then whole else whole ++ point :: kept

def exponent (x : ℤ) : List UInt8 :=
  exponentMark :: (if x < 0 then minus else plus) ::
    (if x.natAbs < 10 then zero :: Decimal.digits x.natAbs else Decimal.digits x.natAbs)

/-- A row `n` of `p` digits whose first digit stands at the place `x`. -/
def general (p n : ℕ) (x : ℤ) : List UInt8 :=
  let digits := Decimal.digits n
  if -4 ≤ x ∧ x < p then
    if 0 ≤ x then fixed (digits.take (x.toNat + 1)) (digits.drop (x.toNat + 1))
    else fixed [zero] (List.replicate (-x - 1).toNat zero ++ digits)
  else fixed (digits.take 1) (digits.drop 1) ++ exponent x

/-- A positive number at `p` significant digits. The exponent is that of the rounded number. -/
def magnitude (p : ℕ) (q : ℚ) : List UInt8 :=
  let r := rounded p q
  general p (r / 10 ^ (Int.log 10 r - (p - 1 : ℕ))).num.toNat (Int.log 10 r)

def readExponent : List UInt8 → ℤ
  | _ :: sign :: digits =>
      if sign = minus then -(Decimal.value digits : ℤ) else Decimal.value digits
  | _ => 0

def read (text : List UInt8) : ℚ :=
  let mantissa := text.takeWhile (· != exponentMark)
  let whole := mantissa.takeWhile (· != point)
  let fraction := (mantissa.dropWhile (· != point)).drop 1
  Decimal.value (whole ++ fraction) *
    10 ^ (readExponent (text.dropWhile (· != exponentMark)) - fraction.length)

section Digits

def Digits (row : List UInt8) : Prop := ∀ c ∈ row, Decimal.isDigit c = true

theorem digit_ne {c : UInt8} (digit : Decimal.isDigit c = true) :
    c ≠ exponentMark ∧ c ≠ point ∧ c ≠ minus := by
  refine ⟨?_, ?_, ?_⟩
  · rintro rfl
    exact absurd digit (by decide)
  · rintro rfl
    exact absurd digit (by decide)
  · rintro rfl
    exact absurd digit (by decide)

theorem digits_digits (n : ℕ) : Digits (Decimal.digits n) := fun _ member =>
  Decimal.isDigit_of_mem_digits member

theorem digits_zeros (count : ℕ) : Digits (List.replicate count zero) := fun c member => by
  rw [List.eq_of_mem_replicate member]
  decide

theorem value_zeros (row : List UInt8) (count : ℕ) :
    Decimal.value (row ++ List.replicate count zero) = Decimal.value row * 10 ^ count := by
  induction count with
  | zero => rw [List.replicate_zero, List.append_nil, pow_zero, mul_one]
  | succ count ih =>
      rw [List.replicate_succ', ← List.append_assoc, Decimal.value_append, ih, pow_succ, ← mul_assoc]
      rfl

theorem value_leading (row : List UInt8) (count : ℕ) :
    Decimal.value (List.replicate count zero ++ row) = Decimal.value row := by
  induction count with
  | zero => rfl
  | succ count ih =>
      rw [List.replicate_succ, List.cons_append]
      exact ih

theorem length_digits {p n : ℕ} (least : 10 ^ p ≤ n) (below : n < 10 ^ (p + 1)) :
    (Decimal.digits n).length = p + 1 := by
  induction p generalizing n with
  | zero =>
      rw [Decimal.digits_of_lt (by simpa using below)]
      rfl
  | succ p ih =>
      have many : 10 ≤ n := by
        have ten : 10 ^ 1 ≤ 10 ^ (p + 1) := Nat.pow_le_pow_right (by norm_num) (by omega)
        omega
      rw [pow_succ] at least
      rw [pow_succ] at below
      rw [Decimal.digits_of_le many, List.length_append,
        ih (n := n / 10) (by omega) (by omega)]
      rfl

end Digits

section Texts

variable {whole fraction : List UInt8}

theorem stripped (fraction : List UInt8) : ∃ count,
    fraction = fraction.rdropWhile (· == zero) ++ List.replicate count zero := by
  refine ⟨(fraction.rtakeWhile (· == zero)).length, ?_⟩
  have zeros : fraction.rtakeWhile (· == zero) =
      List.replicate (fraction.rtakeWhile (· == zero)).length zero := by
    refine List.eq_replicate_of_mem fun c member => ?_
    exact beq_iff_eq.mp (List.mem_rtakeWhile_imp (p := (· == zero)) member)
  rw [← zeros]
  exact List.rdropWhile_append_rtakeWhile.symm

theorem Digits.append {row row' : List UInt8} (digits : Digits row) (digits' : Digits row') :
    Digits (row ++ row') := fun c member =>
  (List.mem_append.mp member).elim (digits c) (digits' c)

theorem takeWhile_mark {row : List UInt8} (rest : List UInt8) {mark : UInt8}
    (apart : ∀ c ∈ row, c ≠ mark) (stop : rest = [] ∨ rest.head? = some mark) :
    (row ++ rest).takeWhile (· != mark) = row ∧ (row ++ rest).dropWhile (· != mark) = rest := by
  have passes : ∀ c ∈ row, (c != mark) = true := fun c member => bne_iff_ne.mpr (apart c member)
  rw [List.takeWhile_append_of_pos passes, List.dropWhile_append_of_pos passes]
  cases rest with
  | nil => exact ⟨by rw [List.takeWhile_nil, List.append_nil], rfl⟩
  | cons c rest =>
      have same : c = mark := by simpa using stop
      subst same
      simp

theorem read_fixed (digits : Digits whole) (digits' : Digits fraction) (tail : List UInt8)
    (stop : tail = [] ∨ tail.head? = some exponentMark) :
    read (fixed whole fraction ++ tail) =
      Decimal.value (whole ++ fraction) * 10 ^ (readExponent tail - fraction.length) := by
  obtain ⟨count, split⟩ := stripped fraction
  generalize kept_eq : fraction.rdropWhile (· == zero) = kept at split
  have kept_digits : Digits kept := fun c member =>
    digits' c (by rw [split]; exact List.mem_append_left _ member)
  have parts : ∃ mantissa : List UInt8, fixed whole fraction = mantissa ∧
      (mantissa ++ tail).takeWhile (· != exponentMark) = mantissa ∧
      (mantissa ++ tail).dropWhile (· != exponentMark) = tail ∧
      mantissa.takeWhile (· != point) = whole ∧
      (mantissa.dropWhile (· != point)).drop 1 = kept := by
    have plain : ∀ c ∈ whole, c ≠ exponentMark := fun c member => (digit_ne (digits c member)).1
    have plain' : ∀ c ∈ kept, c ≠ exponentMark := fun c member =>
      (digit_ne (kept_digits c member)).1
    have noPoint : ∀ c ∈ whole, c ≠ point := fun c member => (digit_ne (digits c member)).2.1
    by_cases empty : kept = []
    · obtain ⟨before, behind⟩ := takeWhile_mark tail plain stop
      obtain ⟨front, back⟩ := takeWhile_mark [] noPoint (.inl rfl)
      rw [List.append_nil] at front back
      refine ⟨whole, ?_, before, behind, front, ?_⟩
      · simp only [fixed, kept_eq, empty, if_true]
      · rw [back, empty, List.drop_nil]
    · have plainAll : ∀ c ∈ whole ++ point :: kept, c ≠ exponentMark := by
        intro c member
        rcases List.mem_append.mp member with front | back
        · exact plain c front
        · rcases List.mem_cons.mp back with same | back
          · rw [same]
            decide
          · exact plain' c back
      obtain ⟨before, behind⟩ := takeWhile_mark tail plainAll stop
      obtain ⟨front, back⟩ := takeWhile_mark (point :: kept) noPoint (.inr rfl)
      refine ⟨whole ++ point :: kept, ?_, before, behind, front, ?_⟩
      · simp only [fixed, kept_eq, empty, if_false]
      · rw [back]
        rfl
  obtain ⟨mantissa, text, before, behind, front, back⟩ := parts
  have scale : (10 : ℚ) ^ count * 10 ^ (readExponent tail - fraction.length) =
      10 ^ (readExponent tail - kept.length) := by
    rw [pow_mul_zpow, split, List.length_append, List.length_replicate]
    congr 1
    push_cast
    ring
  calc
    read (fixed whole fraction ++ tail) =
        Decimal.value (whole ++ kept) * 10 ^ (readExponent tail - kept.length) := by
      rw [text, read]
      simp only [before, behind, front, back]
    _ = Decimal.value (whole ++ kept) * (10 ^ count *
        10 ^ (readExponent tail - fraction.length)) := by rw [scale]
    _ = Decimal.value (whole ++ fraction) * 10 ^ (readExponent tail - fraction.length) := by
      rw [← mul_assoc]
      congr 1
      rw [split, ← List.append_assoc, value_zeros]
      push_cast
      rfl

theorem readExponent_exponent (x : ℤ) : readExponent (exponent x) = x := by
  have value : Decimal.value (if x.natAbs < 10 then zero :: Decimal.digits x.natAbs
      else Decimal.digits x.natAbs) = x.natAbs := by
    split_ifs
    · exact Decimal.value_digits _
    · exact Decimal.value_digits _
  simp only [exponent, readExponent, value]
  by_cases negative : x < 0
  · rw [if_pos negative, if_pos rfl]
    omega
  · rw [if_neg negative, if_neg (by decide)]
    omega

/-- What `%g` writes for a row of `p` digits reads as that row at its place. -/
theorem read_general {p n : ℕ} (least : 10 ^ p ≤ n) (below : n < 10 ^ (p + 1)) (x : ℤ) :
    read (general (p + 1) n x) = n * 10 ^ (x - p) := by
  have size := length_digits least below
  have digits := digits_digits n
  have front : ∀ k, Digits ((Decimal.digits n).take k) := fun k c member =>
    digits c (List.mem_of_mem_take member)
  have back : ∀ k, Digits ((Decimal.digits n).drop k) := fun k c member =>
    digits c (List.mem_of_mem_drop member)
  unfold general
  simp only
  split_ifs with inPlace natural
  · have text := read_fixed (front (x.toNat + 1)) (back (x.toNat + 1)) [] (.inl rfl)
    rw [List.append_nil, List.take_append_drop, Decimal.value_digits, List.length_drop, size]
      at text
    rw [text]
    congr 2
    simp only [readExponent]
    omega
  · have text := read_fixed (digits_zeros 1) ((digits_zeros (-x - 1).toNat).append digits) []
      (.inl rfl)
    rw [List.append_nil, value_leading, value_leading, Decimal.value_digits, List.length_append,
      List.length_replicate, size] at text
    refine text.trans ?_
    congr 2
    simp only [readExponent]
    omega
  · have text := read_fixed (front 1) (back 1) (exponent x) (.inr rfl)
    rw [List.take_append_drop, Decimal.value_digits, List.length_drop, size,
      readExponent_exponent] at text
    rw [text]
    congr 2

theorem head_fixed (digits : Digits whole) (nonempty : whole ≠ []) (tail : List UInt8) :
    (fixed whole fraction ++ tail).head? ≠ some minus := by
  intro sign
  cases whole with
  | nil => exact nonempty rfl
  | cons c rest =>
      have first : c = minus := by
        unfold fixed at sign
        simp only at sign
        split_ifs at sign
        · simpa using sign
        · simpa using sign
      exact (digit_ne (digits c List.mem_cons_self)).2.2 first

theorem head_general (p n : ℕ) (x : ℤ) : (general p n x).head? ≠ some minus := by
  have nonempty := Decimal.digits_ne_nil n
  have front : ∀ k, Digits ((Decimal.digits n).take k) := fun k c member =>
    digits_digits n c (List.mem_of_mem_take member)
  have nonempty' : ∀ k, (Decimal.digits n).take (k + 1) ≠ [] := by
    intro k empty
    rcases List.take_eq_nil_iff.mp empty with none' | none'
    · omega
    · exact nonempty none'
  unfold general
  simp only
  split_ifs
  · rw [← List.append_nil (fixed _ _)]
    exact head_fixed (front _) (nonempty' x.toNat) []
  · rw [← List.append_nil (fixed _ _)]
    exact head_fixed (digits_zeros 1) (List.cons_ne_nil _ _) []
  · exact head_fixed (front 1) (nonempty' 0) _

end Texts

section Magnitudes

variable {p : ℕ} {q q' : ℚ}

theorem log_row {n : ℤ} (row : Row (p + 1) n) (k : ℤ) :
    Int.log 10 ((n : ℚ) * 10 ^ k) = k + p := by
  have unit := ten_pow_pos k
  have first : (10 : ℚ) ^ p ≤ n := by exact_mod_cast row.1
  have last : (n : ℚ) < 10 ^ (p + 1) := by exact_mod_cast row.2
  have positive : (0 : ℚ) < n := lt_of_lt_of_le (by positivity) first
  have scaled : (n : ℚ) * 10 ^ k / 10 ^ k = n := mul_div_cancel_right₀ _ unit.ne'
  have here : place (p + 1) ((n : ℚ) * 10 ^ k) = k :=
    place_eq (Nat.succ_pos p) (mul_pos positive unit) (by rwa [scaled]) (by rwa [scaled])
  rw [place, Nat.add_sub_cancel] at here
  omega

theorem magnitude_row (positive : 0 < q) : ∃ (n : ℕ) (k : ℤ), 10 ^ p ≤ n ∧ n < 10 ^ (p + 1) ∧
    rounded (p + 1) q = n * 10 ^ k ∧ magnitude (p + 1) q = general (p + 1) n (k + p) := by
  obtain ⟨n, k, row, value⟩ := rounded_decimal (Nat.succ_pos p) positive
  have natural : ((n.toNat : ℕ) : ℤ) = n := Int.toNat_of_nonneg (le_trans (by positivity) row.1)
  have same : ((n.toNat : ℕ) : ℚ) = n := by exact_mod_cast natural
  have log := log_row row k
  refine ⟨n.toNat, k, ?_, ?_, ?_, ?_⟩
  · zify
    rw [natural]
    exact row.1
  · zify
    rw [natural]
    exact row.2
  · rw [same, value]
  · have place : k + p - ((p + 1 - 1 : ℕ) : ℤ) = k := by
      rw [Nat.add_sub_cancel]
      omega
    have unit : (10 : ℚ) ^ k ≠ 0 := (ten_pow_pos k).ne'
    unfold magnitude
    simp only [value, log, place, mul_div_assoc, div_self unit, mul_one, Rat.num_intCast]

theorem read_magnitude (positive : 0 < q) :
    read (magnitude (p + 1) q) = rounded (p + 1) q := by
  obtain ⟨n, k, least, below, value, text⟩ := magnitude_row (p := p) positive
  rw [text, read_general least below, value]
  congr 2
  omega

/-- Two numbers are written alike exactly when they are rounded alike. -/
theorem magnitude_eq_iff (positive : 0 < q) (positive' : 0 < q') :
    magnitude (p + 1) q = magnitude (p + 1) q' ↔ rounded (p + 1) q = rounded (p + 1) q' := by
  constructor
  · intro same
    rw [← read_magnitude positive, ← read_magnitude positive', same]
  · intro same
    unfold magnitude
    rw [same]

theorem head_magnitude (p : ℕ) (q : ℚ) : (magnitude p q).head? ≠ some minus :=
  head_general _ _ _

theorem magnitude_ne_zero (positive : 0 < q) : magnitude (p + 1) q ≠ [zero] := by
  intro same
  have value := read_magnitude (p := p) positive
  rw [same] at value
  have none' : read [zero] = 0 := by
    have digit : Decimal.value [zero] = 0 := rfl
    simp [read, zero, exponentMark, point, Decimal.value]
  rw [none'] at value
  exact (rounded_pos (Nat.succ_pos p) positive).ne value

end Magnitudes

end Printf
