import Mathlib.Data.List.Basic

/-! UTF-8 text as lists of bytes. A byte below 128 stands for itself wherever it occurs,
so a text may be rewritten byte by byte as long as only such bytes change. -/

namespace Utf8

def encode (chars : List Char) : List UInt8 := chars.flatMap String.utf8EncodeChar

def Valid (bytes : List UInt8) : Prop := ∃ chars, bytes = encode chars

theorem toByteArray_utf8Encode (chars : List Char) :
    chars.utf8Encode = (encode chars).toByteArray := rfl

theorem valid_iff (bytes : List UInt8) : Valid bytes ↔ bytes.toByteArray.IsValidUTF8 := by
  constructor
  · intro valid
    rcases valid with ⟨chars, same⟩
    exact ⟨chars, by rw [same, toByteArray_utf8Encode]⟩
  · intro valid
    rcases valid with ⟨chars, same⟩
    rw [toByteArray_utf8Encode] at same
    have arrays := congrArg ByteArray.data same
    rw [List.data_toByteArray, List.data_toByteArray] at arrays
    exact ⟨chars, by simpa using arrays⟩

instance : DecidablePred Valid := fun bytes => decidable_of_iff _ (valid_iff bytes).symm

theorem encode_append (left right : List Char) :
    encode (left ++ right) = encode left ++ encode right := List.flatMap_append

theorem valid_encode (chars : List Char) : Valid (encode chars) := ⟨chars, rfl⟩

theorem encode_injective {left right : List Char} (same : encode left = encode right) :
    left = right := by
  have bytes : left.utf8Encode = right.utf8Encode := by
    rw [toByteArray_utf8Encode, toByteArray_utf8Encode, same]
  have arrays := congrArg ByteArray.utf8Decode? bytes
  rw [List.utf8Decode?_utf8Encode, List.utf8Decode?_utf8Encode] at arrays
  simpa using arrays

theorem valid_nil : Valid [] := valid_encode []

theorem Valid.append {left right : List UInt8} (validLeft : Valid left)
    (validRight : Valid right) : Valid (left ++ right) := by
  rcases validLeft with ⟨first, rfl⟩
  rcases validRight with ⟨second, rfl⟩
  exact ⟨first ++ second, (encode_append first second).symm⟩

theorem utf8EncodeChar_ofNat (b : UInt8) (ascii : b < 0x80) :
    String.utf8EncodeChar (Char.ofNat b.toNat) = [b] := by
  have all : ∀ k : Fin 128, String.utf8EncodeChar (Char.ofNat k) = [UInt8.ofNat k] := by decide
  have small : b.toNat < 128 := ascii
  rw [all ⟨b.toNat, small⟩, UInt8.ofNat_toNat]

theorem valid_singleton {b : UInt8} (ascii : b < 0x80) : Valid [b] :=
  ⟨[Char.ofNat b.toNat], by simp [encode, utf8EncodeChar_ofNat b ascii]⟩

theorem valid_ascii {bytes : List UInt8} (ascii : ∀ b ∈ bytes, b < 0x80) : Valid bytes := by
  induction bytes with
  | nil => exact valid_nil
  | cons b rest ih =>
      have later := ih fun other member => ascii other (List.mem_cons_of_mem _ member)
      exact (valid_singleton (ascii b (by simp))).append later

theorem utf8EncodeChar_of_mem {c : Char} {b : UInt8} (member : b ∈ String.utf8EncodeChar c)
    (ascii : b < 0x80) : String.utf8EncodeChar c = [b] := by
  have small : b.toNat < 128 := ascii
  have high : ∀ low base : Nat, 128 ≤ base → low + base < 256 →
      b ≠ UInt8.ofNat (low + base) := by
    intro low base above below same
    rw [same, UInt8.toNat_ofNat', Nat.mod_eq_of_lt below] at small
    omega
  unfold String.utf8EncodeChar at member ⊢
  simp only at member ⊢
  split
  · next one =>
    rw [if_pos one, List.mem_singleton] at member
    rw [member]
  · next many =>
    rw [if_neg many] at member
    exfalso
    split at member
    · simp only [List.mem_cons, List.not_mem_nil, or_false] at member
      rcases member with first | last
      · exact high _ 192 (by omega) (by omega) first
      · exact high _ 128 (by omega) (by omega) last
    · split at member
      · simp only [List.mem_cons, List.not_mem_nil, or_false] at member
        rcases member with first | second | last
        · exact high _ 224 (by omega) (by omega) first
        · exact high _ 128 (by omega) (by omega) second
        · exact high _ 128 (by omega) (by omega) last
      · simp only [List.mem_cons, List.not_mem_nil, or_false] at member
        rcases member with first | second | third | last
        · exact high _ 240 (by omega) (by omega) first
        · exact high _ 128 (by omega) (by omega) second
        · exact high _ 128 (by omega) (by omega) third
        · exact high _ 128 (by omega) (by omega) last

theorem Valid.flatMap {bytes : List UInt8} (valid : Valid bytes) (f : UInt8 → List UInt8)
    (kept : ∀ b, ¬ b < 0x80 → f b = [b]) (ascii : ∀ b < 0x80, Valid (f b)) :
    Valid (bytes.flatMap f) := by
  rcases valid with ⟨chars, rfl⟩
  induction chars with
  | nil => exact valid_nil
  | cons c rest ih =>
      rw [encode, List.flatMap_cons, List.flatMap_append]
      refine Valid.append ?_ ih
      by_cases single : ∃ b ∈ String.utf8EncodeChar c, b < 0x80
      · rcases single with ⟨b, member, small⟩
        rw [utf8EncodeChar_of_mem member small, List.flatMap_singleton]
        exact ascii b small
      · have same : (String.utf8EncodeChar c).flatMap f = String.utf8EncodeChar c := by
          have step : ∀ piece : List UInt8, (∀ b ∈ piece, ¬ b < 0x80) → piece.flatMap f = piece := by
            intro piece multi
            induction piece with
            | nil => rfl
            | cons b others again =>
                rw [List.flatMap_cons, kept b (multi b (by simp)),
                  again fun other member => multi other (List.mem_cons_of_mem _ member)]
                rfl
          exact step _ fun b member small => single ⟨b, member, small⟩
        rw [same]
        exact ⟨[c], by simp [encode]⟩

theorem Valid.split {left right : List UInt8} {c : UInt8} (valid : Valid (left ++ c :: right))
    (ascii : c < 0x80) : Valid left ∧ Valid right := by
  obtain ⟨chars, same⟩ := valid
  induction chars generalizing left with
  | nil => exact absurd same (List.append_ne_nil_of_right_ne_nil left (List.cons_ne_nil c right))
  | cons char rest ih =>
      have whole : Valid (String.utf8EncodeChar char) := ⟨[char], by simp [encode]⟩
      rw [encode, List.flatMap_cons, ← encode] at same
      cases List.append_eq_append_iff.mp same with
      | inr inside =>
          obtain ⟨more, first, last⟩ := inside
          have later := ih last.symm
          exact ⟨first ▸ whole.append later.1, later.2⟩
      | inl inside =>
          obtain ⟨more, first, last⟩ := inside
          cases more with
          | nil =>
              rw [List.append_nil] at first
              exact ⟨first ▸ whole, (@ih [] last).2⟩
          | cons b others =>
              obtain ⟨rfl, later⟩ := List.cons.inj last
              have member : c ∈ String.utf8EncodeChar char := by
                rw [first]
                simp
              have single := utf8EncodeChar_of_mem member ascii
              have sizes := congrArg List.length (single.symm.trans first)
              rw [List.length_singleton, List.length_append, List.length_cons] at sizes
              have noLeft : left = [] := List.length_eq_zero_iff.mp (by omega)
              have noOthers : others = [] := List.length_eq_zero_iff.mp (by omega)
              subst noOthers
              exact ⟨noLeft ▸ valid_nil, ⟨rest, later⟩⟩

theorem Valid.tail {c : UInt8} {right : List UInt8} (valid : Valid (c :: right))
    (ascii : c < 0x80) : Valid right := by
  have whole : Valid ([] ++ c :: right) := valid
  exact (whole.split ascii).2

theorem Valid.of_ascii_append {left right : List UInt8} (ascii : ∀ b ∈ left, b < 0x80)
    (valid : Valid (left ++ right)) : Valid right := by
  induction left with
  | nil => exact valid
  | cons b rest ih =>
      have later := valid.tail (ascii b (by simp))
      exact ih (fun other member => ascii other (List.mem_cons_of_mem _ member)) later

theorem Valid.of_flatMap {bytes : List UInt8} (f : UInt8 → List UInt8)
    (kept : ∀ b, ¬ b < 0x80 → f b = [b]) (ascii : ∀ b < 0x80, ∀ c ∈ f b, c < 0x80)
    (nonempty : ∀ b, f b ≠ []) (before : List UInt8) (valid : Valid (before ++ bytes.flatMap f)) :
    Valid (before ++ bytes) := by
  induction bytes generalizing before with
  | nil => exact valid
  | cons b rest ih =>
      rw [List.flatMap_cons] at valid
      by_cases small : b < 0x80
      · obtain ⟨c, more, pieces⟩ := List.exists_cons_of_ne_nil (nonempty b)
        have letters := ascii b small
        rw [pieces] at letters valid
        have parts := Valid.split valid (letters c (by simp))
        have later := Valid.of_ascii_append
          (fun other member => letters other (List.mem_cons_of_mem _ member)) parts.2
        exact parts.1.append ((valid_singleton small).append (ih [] later))
      · rw [kept b small, ← List.append_assoc] at valid
        have later := ih (before ++ [b]) valid
        rwa [List.append_assoc] at later

end Utf8
