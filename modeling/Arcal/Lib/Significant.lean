import Mathlib.Data.Int.Log
import Mathlib.Data.Rat.Floor
import Mathlib.Algebra.Order.Field.Basic
import Mathlib.Tactic.Linarith
import Mathlib.Tactic.Positivity
import Mathlib.Tactic.NormNum
import Mathlib.Tactic.Ring

/-! Rational numbers rounded to a number of significant decimal digits. Two of them are
rounded apart exactly when the middle between two neighbouring decimals lies between them. -/

namespace Significant

/-- The nearest integer; of two as near, the even one. -/
def nearestEven (q : ℚ) : ℤ :=
  if q - ⌊q⌋ < 1 / 2 then ⌊q⌋
  else if 1 / 2 < q - ⌊q⌋ then ⌊q⌋ + 1
  else ⌊q⌋ + ⌊q⌋ % 2

/-- Not beyond the middle between `n` and `n + 1`. The middle itself belongs to the even one. -/
def UpTo (n : ℤ) (q : ℚ) : Prop := q < n + 1 / 2 ∨ q = n + 1 / 2 ∧ n % 2 = 0

theorem nearestEven_le_iff {n : ℤ} {q : ℚ} : nearestEven q ≤ n ↔ UpTo n q := by
  have low := Int.floor_le q
  have high := Int.lt_floor_add_one q
  unfold nearestEven UpTo
  rcases lt_trichotomy n ⌊q⌋ with below | here | above
  · have step : (n : ℚ) + 1 ≤ ⌊q⌋ := by exact_mod_cast below
    constructor
    · intro small
      split_ifs at small
      · omega
      · omega
      · omega
    · rintro (small | ⟨small, _⟩)
      · linarith
      · linarith
  · subst here
    constructor
    · intro small
      split_ifs at small with less more
      · left
        linarith
      · omega
      · right
        exact ⟨by linarith, by omega⟩
    · intro small
      split_ifs with less more
      · exact le_refl _
      · rcases small with small | ⟨small, _⟩
        · linarith
        · linarith
      · rcases small with small | ⟨_, even⟩
        · linarith
        · omega
  · have step : (⌊q⌋ : ℚ) + 1 ≤ n := by exact_mod_cast above
    constructor
    · intro _
      left
      linarith
    · intro _
      split_ifs
      · omega
      · omega
      · omega

theorem nearestEven_le {n : ℤ} {q : ℚ} (small : q ≤ n) : nearestEven q ≤ n :=
  nearestEven_le_iff.mpr (.inl (by linarith))

theorem le_nearestEven {n : ℤ} {q : ℚ} (large : (n : ℚ) ≤ q) : n ≤ nearestEven q := by
  by_contra less
  have below : nearestEven q ≤ n - 1 := by omega
  rcases nearestEven_le_iff.mp below with beyond | ⟨beyond, _⟩
  · push_cast at beyond
    linarith
  · push_cast at beyond
    linarith

theorem nearestEven_of_near {n : ℤ} {q : ℚ} (low : (n : ℚ) - 1 / 2 < q) (high : q < n + 1 / 2) :
    nearestEven q = n := by
  refine le_antisymm (nearestEven_le_iff.mpr (.inl high)) ?_
  by_contra less
  have below : nearestEven q ≤ n - 1 := by omega
  rcases nearestEven_le_iff.mp below with beyond | ⟨beyond, _⟩
  · push_cast at beyond
    linarith
  · push_cast at beyond
    linarith

/-- A row of `p` digits that does not begin with a zero. -/
def Row (p : ℕ) (n : ℤ) : Prop := 10 ^ (p - 1) ≤ n ∧ n < 10 ^ p

def place (p : ℕ) (q : ℚ) : ℤ := Int.log 10 q - (p - 1 : ℕ)

/-- Correctly rounded to `p` significant digits. -/
def rounded (p : ℕ) (q : ℚ) : ℚ := nearestEven (q / 10 ^ place p q) * 10 ^ place p q

section Rounding

variable {p : ℕ} {q : ℚ}

theorem ten_pow_pos (k : ℤ) : (0 : ℚ) < 10 ^ k := zpow_pos (by norm_num) k

theorem pow_mul_zpow (m : ℕ) (k : ℤ) : (10 : ℚ) ^ m * 10 ^ k = 10 ^ (k + m) := by
  rw [zpow_add₀ (by norm_num), zpow_natCast, mul_comm]

theorem scaled_row (nonzero : 0 < p) (positive : 0 < q) :
    (10 : ℚ) ^ (p - 1) ≤ q / 10 ^ place p q ∧ q / 10 ^ place p q < 10 ^ p := by
  have least := Int.zpow_log_le_self (b := 10) (by norm_num) positive
  have below := Int.lt_zpow_succ_log_self (b := 10) (by norm_num) q
  rw [Nat.cast_ofNat] at least below
  constructor
  · rw [le_div_iff₀ (ten_pow_pos _), pow_mul_zpow]
    have same : place p q + (p - 1 : ℕ) = Int.log 10 q := by
      rw [place]
      omega
    rw [same]
    exact least
  · rw [div_lt_iff₀ (ten_pow_pos _), pow_mul_zpow]
    have same : place p q + p = Int.log 10 q + 1 := by
      rw [place]
      omega
    rw [same]
    exact below

theorem place_eq (nonzero : 0 < p) (positive : 0 < q) {k : ℤ}
    (least : (10 : ℚ) ^ (p - 1) ≤ q / 10 ^ k) (below : q / 10 ^ k < 10 ^ p) : place p q = k := by
  rw [le_div_iff₀ (ten_pow_pos k), pow_mul_zpow] at least
  rw [div_lt_iff₀ (ten_pow_pos k), pow_mul_zpow] at below
  have low : k + (p - 1 : ℕ) ≤ Int.log 10 q :=
    (Int.zpow_le_iff_le_log (b := 10) (by norm_num) positive).mp (by exact_mod_cast least)
  have high : Int.log 10 q < k + p :=
    (Int.lt_zpow_iff_log_lt (b := 10) (by norm_num) positive).mp (by exact_mod_cast below)
  rw [place]
  omega

theorem rounded_eq (nonzero : 0 < p) (positive : 0 < q) {n k : ℤ}
    (least : (10 : ℚ) ^ (p - 1) ≤ q / 10 ^ k) (below : q / 10 ^ k < 10 ^ p)
    (low : (n : ℚ) - 1 / 2 < q / 10 ^ k) (high : q / 10 ^ k < n + 1 / 2) :
    rounded p q = n * 10 ^ k := by
  rw [rounded, place_eq nonzero positive least below, nearestEven_of_near low high]

/-- Rounding may carry into one more digit, and then gives a one with zeros. -/
theorem nearest_row (nonzero : 0 < p) (positive : 0 < q) :
    10 ^ (p - 1) ≤ nearestEven (q / 10 ^ place p q) ∧
      nearestEven (q / 10 ^ place p q) ≤ 10 ^ p := by
  obtain ⟨least, below⟩ := scaled_row nonzero positive
  constructor
  · apply le_nearestEven
    push_cast
    exact least
  · apply nearestEven_le
    push_cast
    exact below.le

theorem rounded_decimal (nonzero : 0 < p) (positive : 0 < q) :
    ∃ n k : ℤ, Row p n ∧ rounded p q = n * 10 ^ k := by
  obtain ⟨least, most⟩ := nearest_row nonzero positive
  by_cases carried : nearestEven (q / 10 ^ place p q) = 10 ^ p
  · refine ⟨10 ^ (p - 1), place p q + 1, ⟨le_refl _, ?_⟩, ?_⟩
    · exact pow_lt_pow_right₀ (by norm_num) (by omega)
    · rw [rounded, carried]
      push_cast
      rw [pow_mul_zpow, pow_mul_zpow]
      congr 1
      omega
  · exact ⟨_, _, ⟨least, lt_of_le_of_ne most carried⟩, rfl⟩

theorem rounded_pos (nonzero : 0 < p) (positive : 0 < q) : 0 < rounded p q := by
  have least := (nearest_row nonzero positive).1
  have one : (1 : ℤ) ≤ 10 ^ (p - 1) := one_le_pow₀ (by norm_num)
  refine mul_pos ?_ (ten_pow_pos _)
  exact_mod_cast lt_of_lt_of_le (by norm_num) (one.trans least)

/-- A number is rounded to at most a decimal of `p` digits exactly when it is not beyond the
middle between that decimal and the next. -/
theorem rounded_le_iff (nonzero : 0 < p) (positive : 0 < q) {n : ℤ} (row : Row p n) (k : ℤ) :
    rounded p q ≤ n * 10 ^ k ↔ UpTo n (q / 10 ^ k) := by
  obtain ⟨least, below⟩ := scaled_row nonzero positive
  obtain ⟨least', most'⟩ := nearest_row nonzero positive
  have first : ((10 : ℚ) ^ (p - 1)) ≤ n := by exact_mod_cast row.1
  have last : (n : ℚ) + 1 ≤ 10 ^ p := by exact_mod_cast row.2
  have low : (10 : ℚ) ^ (p - 1) ≤ nearestEven (q / 10 ^ place p q) := by exact_mod_cast least'
  have high : (nearestEven (q / 10 ^ place p q) : ℚ) ≤ 10 ^ p := by exact_mod_cast most'
  have unit := ten_pow_pos k
  have unit' := ten_pow_pos (place p q)
  rcases lt_trichotomy (place p q) k with coarser | same | finer
  · have step : (10 : ℚ) ^ p * 10 ^ place p q ≤ 10 ^ (p - 1) * 10 ^ k := by
      rw [pow_mul_zpow, pow_mul_zpow]
      exact zpow_le_zpow_right₀ (by norm_num) (by omega)
    refine iff_of_true ?_ (.inl ?_)
    · calc
        rounded p q ≤ 10 ^ p * 10 ^ place p q := mul_le_mul_of_nonneg_right high unit'.le
        _ ≤ 10 ^ (p - 1) * 10 ^ k := step
        _ ≤ n * 10 ^ k := mul_le_mul_of_nonneg_right first unit.le
    · have small : q / 10 ^ k < 10 ^ (p - 1) := by
        rw [div_lt_iff₀ unit]
        exact ((div_lt_iff₀ unit').mp below).trans_le step
      linarith
  · subst same
    rw [rounded, mul_le_mul_iff_left₀ (ten_pow_pos _), Int.cast_le, nearestEven_le_iff]
  · have step : (10 : ℚ) ^ p * 10 ^ k ≤ 10 ^ (p - 1) * 10 ^ place p q := by
      rw [pow_mul_zpow, pow_mul_zpow]
      exact zpow_le_zpow_right₀ (by norm_num) (by omega)
    refine iff_of_false (not_le.mpr ?_) ?_
    · calc
        (n : ℚ) * 10 ^ k < 10 ^ p * 10 ^ k := mul_lt_mul_of_pos_right (by linarith) unit
        _ ≤ 10 ^ (p - 1) * 10 ^ place p q := step
        _ ≤ rounded p q := mul_le_mul_of_nonneg_right low unit'.le
    · have large : 10 ^ p ≤ q / 10 ^ k := by
        rw [le_div_iff₀ unit]
        exact step.trans ((le_div_iff₀ unit').mp least)
      rintro (small | ⟨small, _⟩)
      · linarith
      · linarith

/-- The middle between two neighbouring decimals of `p` digits lies between the two numbers. -/
def Between (p : ℕ) (low high : ℚ) : Prop :=
  ∃ n k : ℤ, Row p n ∧ UpTo n (low / 10 ^ k) ∧ ¬ UpTo n (high / 10 ^ k)

theorem rounded_lt_iff (nonzero : 0 < p) {low high : ℚ} (positive : 0 < low)
    (positive' : 0 < high) : rounded p low < rounded p high ↔ Between p low high := by
  constructor
  · intro apart
    obtain ⟨n, k, row, value⟩ := rounded_decimal nonzero positive
    refine ⟨n, k, row, (rounded_le_iff nonzero positive row k).mp value.le, ?_⟩
    rw [← rounded_le_iff nonzero positive' row k, ← value]
    exact not_le.mpr apart
  · rintro ⟨n, k, row, upTo, beyond⟩
    have before := (rounded_le_iff nonzero positive row k).mpr upTo
    rw [← rounded_le_iff nonzero positive' row k, not_le] at beyond
    exact before.trans_lt beyond

theorem rounded_ne_iff (nonzero : 0 < p) {q q' : ℚ} (positive : 0 < q) (positive' : 0 < q') :
    rounded p q ≠ rounded p q' ↔ Between p q q' ∨ Between p q' q := by
  rw [← rounded_lt_iff nonzero positive positive', ← rounded_lt_iff nonzero positive' positive]
  exact ne_iff_lt_or_gt

end Rounding

end Significant
