import Mathlib.Data.List.Basic

/-! Hexadecimal digits in ASCII. -/

namespace Hex

def digit (n : Nat) : UInt8 := UInt8.ofNat (if n < 10 then 0x30 + n else 0x57 + n)

def value (c : UInt8) : Option Nat :=
  if 0x30 ≤ c ∧ c ≤ 0x39 then some (c.toNat - 0x30)
  else if 0x61 ≤ c ∧ c ≤ 0x66 then some (c.toNat - 0x57)
  else if 0x41 ≤ c ∧ c ≤ 0x46 then some (c.toNat - 0x37)
  else none

def pair (byte : UInt8) : List UInt8 :=
  [digit (byte.toNat / 16), digit (byte.toNat % 16)]

@[simp] theorem pair_length (byte : UInt8) : (pair byte).length = 2 := rfl

theorem value_digit (n : Nat) (small : n < 16) : value (digit n) = some n := by
  have all : ∀ k : Fin 16, value (digit k) = some k.val := by decide
  exact all ⟨n, small⟩

theorem value_lt {c : UInt8} {n : Nat} (digit : value c = some n) : n < 16 := by
  have all : ∀ k : Fin 256, (value (UInt8.ofNat k)).getD 0 < 16 := by decide +kernel
  have here := all ⟨c.toNat, c.toNat_lt⟩
  rw [UInt8.ofNat_toNat, digit] at here
  exact here

theorem digit_range (n : Nat) (small : n < 16) :
    0x30 ≤ digit n ∧ digit n ≤ 0x66 ∧ digit n ≠ 0x5c := by
  have all : ∀ k : Fin 16, 0x30 ≤ digit k ∧ digit k ≤ 0x66 ∧ digit k ≠ 0x5c := by decide
  exact all ⟨n, small⟩

theorem digit_small_high (byte : UInt8) : byte.toNat / 16 < 16 := by
  have bound := byte.toNat_lt
  omega

theorem digit_small_low (byte : UInt8) : byte.toNat % 16 < 16 := Nat.mod_lt _ (by decide)

theorem value_high (byte : UInt8) :
    value (digit (byte.toNat / 16)) = some (byte.toNat / 16) :=
  value_digit _ (digit_small_high byte)

theorem value_low (byte : UInt8) :
    value (digit (byte.toNat % 16)) = some (byte.toNat % 16) :=
  value_digit _ (digit_small_low byte)

theorem halves (byte : UInt8) :
    UInt8.ofNat (byte.toNat / 16 * 16 + byte.toNat % 16) = byte := by
  rw [Nat.mul_comm, Nat.div_add_mod, UInt8.ofNat_toNat]

end Hex
