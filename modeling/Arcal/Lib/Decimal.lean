import Arcal.Lib.Utf8

/-! Decimal numerals in ASCII. -/

namespace Decimal

def isDigit (c : UInt8) : Bool := 0x30 ≤ c && c ≤ 0x39

def digit (n : Nat) : UInt8 := UInt8.ofNat (0x30 + n)

def digits (n : Nat) : List UInt8 := Utf8.encode (Nat.toDigits 10 n)

def value (numeral : List UInt8) : Nat :=
  numeral.foldl (fun acc c => acc * 10 + (c.toNat - 0x30)) 0

theorem digit_spec (n : Nat) (small : n < 10) :
    Utf8.encode [Nat.digitChar n] = [digit n] ∧ isDigit (digit n) = true ∧
      (digit n).toNat - 0x30 = n ∧ (digit n = 0x30 → n = 0) := by
  have all : ∀ k : Fin 10, Utf8.encode [Nat.digitChar k] = [digit k] ∧
      isDigit (digit k) = true ∧ (digit k).toNat - 0x30 = k ∧
      (digit k = 0x30 → k.val = 0) := by decide
  exact all ⟨n, small⟩

theorem digits_of_lt {n : Nat} (small : n < 10) : digits n = [digit n] := by
  rw [digits, Nat.toDigits_of_lt_base small]
  exact (digit_spec n small).1

theorem digits_of_le {n : Nat} (large : 10 ≤ n) :
    digits n = digits (n / 10) ++ [digit (n % 10)] := by
  rw [digits, Nat.toDigits_of_base_le (by decide) large, Utf8.encode_append]
  congr 1
  exact (digit_spec (n % 10) (Nat.mod_lt _ (by decide))).1

theorem digits_induction {motive : Nat → Prop} (small : ∀ n < 10, motive n)
    (large : ∀ n, 10 ≤ n → motive (n / 10) → motive n) (n : Nat) : motive n := by
  induction n using Nat.strongRecOn with
  | _ n ih =>
      by_cases one : n < 10
      · exact small n one
      · exact large n (by omega) (ih (n / 10) (by omega))

theorem isDigit_of_mem_digits {n : Nat} {c : UInt8} (member : c ∈ digits n) :
    isDigit c = true := by
  induction n using digits_induction with
  | small n one =>
      rw [digits_of_lt one, List.mem_singleton] at member
      rw [member]
      exact (digit_spec n one).2.1
  | large n many ih =>
      rw [digits_of_le many, List.mem_append, List.mem_singleton] at member
      rcases member with front | last
      · exact ih front
      · rw [last]
        exact (digit_spec (n % 10) (Nat.mod_lt _ (by decide))).2.1

theorem digits_ne_nil (n : Nat) : digits n ≠ [] := by
  by_cases one : n < 10
  · rw [digits_of_lt one]
    simp
  · rw [digits_of_le (by omega)]
    simp

theorem value_append (front : List UInt8) (c : UInt8) :
    value (front ++ [c]) = value front * 10 + (c.toNat - 0x30) := by
  rw [value, List.foldl_append]
  rfl

theorem value_digits (n : Nat) : value (digits n) = n := by
  induction n using digits_induction with
  | small n one =>
      rw [digits_of_lt one]
      have same := (digit_spec n one).2.2.1
      simpa [value] using same
  | large n many ih =>
      have last := (digit_spec (n % 10) (Nat.mod_lt _ (by decide))).2.2.1
      calc
        value (digits n) = value (digits (n / 10)) * 10 + ((digit (n % 10)).toNat - 0x30) := by
          rw [digits_of_le many, value_append]
        _ = n / 10 * 10 + n % 10 := by rw [ih, last]
        _ = n := by omega

theorem digits_head (n : Nat) : digits n = [0x30] ∨ (digits n).head? ≠ some 0x30 := by
  induction n using digits_induction with
  | small n one =>
      rw [digits_of_lt one]
      by_cases zero : digit n = 0x30
      · exact .inl (by rw [zero])
      · exact .inr (by simpa using zero)
  | large n many ih =>
      right
      rw [digits_of_le many, List.head?_append_of_ne_nil _ (digits_ne_nil _)]
      rcases ih with lone | other
      · have zero := congrArg value lone
        rw [value_digits] at zero
        have same : value [0x30] = 0 := rfl
        omega
      · exact other

end Decimal
