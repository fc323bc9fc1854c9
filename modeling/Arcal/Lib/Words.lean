import Mathlib.Tactic.Ring
import Mathlib.Data.Nat.Bitwise

/-! Alignment arithmetic, and machine words cut into bytes, most significant first. -/

namespace Words

/-- How many filler bytes bring an offset to the next multiple of `alignment`. -/
def padding (alignment offset : Nat) : Nat := (alignment - offset % alignment) % alignment

theorem padding_eq_zero_iff (alignment offset : Nat) (positive : 0 < alignment) :
    padding alignment offset = 0 ↔ offset % alignment = 0 := by
  have small := Nat.mod_lt offset positive
  unfold padding
  constructor
  · intro zero
    by_contra unaligned
    rw [Nat.mod_eq_of_lt (by omega)] at zero
    omega
  · intro aligned
    simp [aligned]

theorem padding_succ (alignment offset : Nat) (positive : 0 < alignment)
    (unaligned : offset % alignment ≠ 0) :
    padding alignment offset = padding alignment (offset + 1) + 1 := by
  have small := Nat.mod_lt offset positive
  have next : (offset + 1) % alignment =
      if offset % alignment + 1 = alignment then 0 else offset % alignment + 1 := by
    rw [Nat.add_mod]
    by_cases one : alignment = 1
    · subst one
      omega
    · rw [Nat.mod_eq_of_lt (a := 1) (by omega)]
      split
      · next full => rw [full, Nat.mod_self]
      · next room => exact Nat.mod_eq_of_lt (by omega)
  unfold padding
  rw [Nat.mod_eq_of_lt (a := alignment - offset % alignment) (by omega), next]
  by_cases full : offset % alignment + 1 = alignment
  · rw [if_pos full, Nat.sub_zero, Nat.mod_self]
    omega
  · rw [if_neg full, Nat.mod_eq_of_lt (a := alignment - (offset % alignment + 1)) (by omega)]
    omega

theorem or_shifted (high low bits : Nat) (small : low < 2 ^ bits) :
    high <<< bits ||| low = high * 2 ^ bits + low := by
  rw [← Nat.shiftLeft_add_eq_or_of_lt small, Nat.shiftLeft_eq]

theorem join16 (v : UInt16) :
    ((v >>> 8).toUInt8.toUInt16 <<< 8) ||| v.toUInt8.toUInt16 = v := by
  apply UInt16.toNat_inj.mp
  have bound : v.toNat < 65536 := v.toNat_lt
  simp only [UInt16.toNat_or, UInt16.toNat_shiftLeft, UInt8.toNat_toUInt16, UInt16.toNat_toUInt8,
    UInt16.toNat_shiftRight, UInt16.toNat_ofNat, Nat.reducePow, Nat.reduceMod,
    Nat.shiftRight_eq_div_pow]
  generalize v.toNat = n at bound ⊢
  rw [Nat.mod_eq_of_lt (a := (n / 256 % 256) <<< 8) (by rw [Nat.shiftLeft_eq]; omega),
    or_shifted _ _ 8 (by omega)]
  omega

theorem join32 (v : UInt32) :
    ((v >>> 24).toUInt8.toUInt32 <<< 24) ||| ((v >>> 16).toUInt8.toUInt32 <<< 16) |||
      ((v >>> 8).toUInt8.toUInt32 <<< 8) ||| v.toUInt8.toUInt32 = v := by
  apply UInt32.toNat_inj.mp
  have bound : v.toNat < 4294967296 := v.toNat_lt
  simp only [UInt32.toNat_or, UInt32.toNat_shiftLeft, UInt8.toNat_toUInt32, UInt32.toNat_toUInt8,
    UInt32.toNat_shiftRight, UInt32.toNat_ofNat, Nat.reducePow, Nat.reduceMod,
    Nat.shiftRight_eq_div_pow, Nat.or_assoc]
  generalize v.toNat = n at bound ⊢
  rw [Nat.mod_eq_of_lt (a := (n / 16777216 % 256) <<< 24) (by rw [Nat.shiftLeft_eq]; omega),
    Nat.mod_eq_of_lt (a := (n / 65536 % 256) <<< 16) (by rw [Nat.shiftLeft_eq]; omega),
    Nat.mod_eq_of_lt (a := (n / 256 % 256) <<< 8) (by rw [Nat.shiftLeft_eq]; omega),
    or_shifted _ _ 8 (by omega), or_shifted _ _ 16 (by omega), or_shifted _ _ 24 (by omega)]
  omega

/-- Read a byte list as one 64-bit word, most significant byte first. -/
def fold64 (bytes : List UInt8) : UInt64 :=
  bytes.foldl (fun acc byte => (acc <<< 8) ||| byte.toUInt64) 0

def split64 (v : UInt64) : List UInt8 :=
  ([56, 48, 40, 32, 24, 16, 8, 0] : List UInt64).map (fun shift => (v >>> shift).toUInt8)

@[simp] theorem split64_length (v : UInt64) : (split64 v).length = 8 := rfl

theorem fold64_step (acc : UInt64) (byte : UInt8) (room : acc.toNat < 2 ^ 56) :
    ((acc <<< 8) ||| byte.toUInt64).toNat = acc.toNat * 256 + byte.toNat := by
  have small : byte.toNat < 256 := byte.toNat_lt
  simp only [UInt64.toNat_or, UInt64.toNat_shiftLeft, UInt8.toNat_toUInt64, UInt64.toNat_ofNat,
    Nat.reducePow, Nat.reduceMod]
  rw [Nat.mod_eq_of_lt (by rw [Nat.shiftLeft_eq]; omega), or_shifted _ _ 8 (by omega),
    show (2 : Nat) ^ 8 = 256 from rfl]

/-- Eight bytes at most never overflow, so the word is the base-256 number. -/
theorem foldl_toNat (bytes : List UInt8) (acc : UInt64) (k : Nat) (short : bytes.length + k = 8)
    (room : acc.toNat < 256 ^ k) :
    (bytes.foldl (fun (acc : UInt64) byte => (acc <<< 8) ||| byte.toUInt64) acc).toNat =
      bytes.foldl (fun acc byte => acc * 256 + byte.toNat) acc.toNat := by
  induction bytes generalizing acc k with
  | nil => rfl
  | cons byte rest ih =>
      have below : k ≤ 7 := by simp only [List.length_cons] at short; omega
      have cap : acc.toNat < 2 ^ 56 :=
        Nat.lt_of_lt_of_le room (Nat.le_trans (Nat.pow_le_pow_right (by decide) below) (by decide))
      have small : byte.toNat < 256 := byte.toNat_lt
      have step := fold64_step acc byte cap
      simp only [List.foldl_cons]
      rw [ih _ (k + 1) (by simp only [List.length_cons] at short; omega), step]
      rw [step, Nat.pow_succ]
      omega

theorem byte_toNat (v shift : UInt64) (inside : shift.toNat < 64) :
    (v >>> shift).toUInt8.toNat = v.toNat / 2 ^ shift.toNat % 256 := by
  rw [UInt64.toNat_toUInt8, UInt64.toNat_shiftRight, Nat.mod_eq_of_lt inside,
    Nat.shiftRight_eq_div_pow]

theorem append_byte (n k : Nat) : n / 2 ^ (k + 8) * 256 + n / 2 ^ k % 256 = n / 2 ^ k := by
  rw [Nat.pow_add, ← Nat.div_div_eq_div_mul]
  exact Nat.div_add_mod' (n / 2 ^ k) 256

theorem fold64_split64 (v : UInt64) : fold64 (split64 v) = v := by
  have bound : v.toNat < 2 ^ 56 * 256 := v.toNat_lt
  have room : (0 : UInt64).toNat < 256 ^ 0 := by decide
  have append := append_byte v.toNat
  apply UInt64.toNat_inj.mp
  calc
    (fold64 (split64 v)).toNat = (split64 v).foldl (fun acc byte => acc * 256 + byte.toNat) 0 :=
      foldl_toNat (split64 v) 0 0 (split64_length v) room
    _ = ((((((v.toNat / 2 ^ 56 % 256 * 256 + v.toNat / 2 ^ 48 % 256) * 256 +
          v.toNat / 2 ^ 40 % 256) * 256 + v.toNat / 2 ^ 32 % 256) * 256 +
          v.toNat / 2 ^ 24 % 256) * 256 + v.toNat / 2 ^ 16 % 256) * 256 +
          v.toNat / 2 ^ 8 % 256) * 256 + v.toNat / 2 ^ 0 % 256 := by
      simp only [split64, List.map_cons, List.map_nil, List.foldl_cons, List.foldl_nil]
      rw [byte_toNat v 56 (by decide), byte_toNat v 48 (by decide), byte_toNat v 40 (by decide),
        byte_toNat v 32 (by decide), byte_toNat v 24 (by decide), byte_toNat v 16 (by decide),
        byte_toNat v 8 (by decide), byte_toNat v 0 (by decide)]
      simp
    _ = v.toNat := by
      rw [Nat.mod_eq_of_lt (Nat.div_lt_of_lt_mul bound), append 48, append 40, append 32,
        append 24, append 16, append 8, append 0, Nat.pow_zero, Nat.div_one]

end Words
