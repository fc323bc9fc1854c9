import Arcal.Lib.JsonRender

/-! Whatever text a JSON parser takes, the strings it hands out are UTF-8 text again: a string
is made of whole characters of the text and of escapes, which stand for whole characters. -/

namespace Utf8

theorem Valid.dropWhile {p : UInt8 → Bool} {text : List UInt8} (valid : Valid text)
    (ascii : ∀ c, p c = true → c < 0x80) : Valid (text.dropWhile p) := by
  have parts : Valid (text.takeWhile p ++ text.dropWhile p) := by
    rwa [List.takeWhile_append_dropWhile]
  exact Valid.of_ascii_append (fun c inside => ascii c (List.mem_takeWhile_imp inside)) parts

end Utf8

namespace JsonText

open Utf8 (Valid)

theorem valid_skip {text : List UInt8} (valid : Valid text) : Valid (skip text) :=
  valid.dropWhile fun _ => isSpace_ascii

theorem valid_behind_literal {literal text : List UInt8} (ascii : ∀ c ∈ literal, c < 0x80)
    (starts : literal.isPrefixOf text = true) (valid : Valid text) :
    Valid (text.drop literal.length) := by
  obtain ⟨rest, same⟩ := List.isPrefixOf_iff_prefix.mp starts
  rw [← same] at valid ⊢
  rw [List.drop_left]
  exact Valid.of_ascii_append ascii valid

theorem handed_out {α : Type} {P : α → Prop} {a b : α} {text rest : List UInt8}
    (same : (a, text) = (b, rest)) (holds : P a) (valid : Valid text) : P b ∧ Valid rest := by
  injection same with isValue isRest
  rw [← isValue, ← isRest]
  exact ⟨holds, valid⟩

theorem hex_ascii {c : UInt8} {n : Nat} (digit : Hex.value c = some n) : c < 0x80 := by
  have all : ∀ k : Fin 256, (Hex.value (UInt8.ofNat k)).isSome = true →
      UInt8.ofNat k < 0x80 := by decide +kernel
  have here := all ⟨c.toNat, c.toNat_lt⟩
  rw [UInt8.ofNat_toNat, digit] at here
  exact here rfl

theorem hex4_valid {text rest : List UInt8} {unit : Nat} (read : hex4 text = some (unit, rest))
    (valid : Valid text) : Valid rest := by
  rcases text with _ | ⟨first, _ | ⟨second, _ | ⟨third, _ | ⟨fourth, more⟩⟩⟩⟩
  · cases read
  · cases read
  · cases read
  · cases read
  · simp only [hex4, bind, Option.bind_eq_some_iff] at read
    obtain ⟨a, one, b, two, c, three, d, four, same⟩ := read
    injection same with same
    injection same with _ same
    rw [← same]
    exact (((valid.tail (hex_ascii one)).tail (hex_ascii two)).tail (hex_ascii three)).tail
      (hex_ascii four)

theorem valid_char (c : Char) : Valid (String.utf8EncodeChar c) := ⟨[c], by simp [Utf8.encode]⟩

theorem lowSurrogate_valid {text rest : List UInt8} {unit : Nat}
    (read : lowSurrogate text = some (unit, rest)) (valid : Valid text) : Valid rest := by
  rcases text with _ | ⟨first, _ | ⟨second, more⟩⟩
  · cases read
  · cases read
  · rw [lowSurrogate] at read
    split_ifs at read with mark
    rw [Option.filter_eq_some_iff] at read
    rw [mark.1, mark.2] at valid
    exact hex4_valid read.1 ((valid.tail (by decide)).tail (by decide))

theorem unicode_valid {text piece rest : List UInt8} (read : unicode text = some (piece, rest))
    (valid : Valid text) : Valid piece ∧ Valid rest := by
  simp only [unicode, bind, Option.bind_eq_some_iff] at read
  obtain ⟨⟨unit, behind⟩, digits, more⟩ := read
  have later := hex4_valid digits valid
  simp only at more
  split_ifs at more
  · obtain ⟨⟨low, last⟩, second, same⟩ := Option.bind_eq_some_iff.mp more
    exact handed_out (Option.some.inj same) (valid_char _) (lowSurrogate_valid second later)
  · exact handed_out (Option.some.inj more) (valid_char _) later

theorem unescape_ascii {c byte : UInt8} (known : unescape c = some byte) :
    c < 0x80 ∧ byte < 0x80 := by
  have all : ∀ k : Fin 256, ((unescape (UInt8.ofNat k)).all fun byte =>
      decide (UInt8.ofNat k < 0x80 ∧ byte < 0x80)) = true := by decide +kernel
  have here := all ⟨c.toNat, c.toNat_lt⟩
  rw [UInt8.ofNat_toNat, known] at here
  simpa using here

theorem escaped_valid {text piece rest : List UInt8} (read : escaped text = some (piece, rest))
    (valid : Valid text) : Valid piece ∧ Valid rest := by
  cases text with
  | nil => cases read
  | cons c more =>
      rw [escaped] at read
      split_ifs at read with code
      · rw [code] at valid
        exact unicode_valid read (valid.tail (by decide))
      · obtain ⟨byte, known, same⟩ := Option.map_eq_some_iff.mp read
        obtain ⟨letter, stands⟩ := unescape_ascii known
        exact handed_out same (Utf8.valid_singleton stands) (valid.tail letter)

/-- `before` is the part of a longer character that was copied byte by byte so far. -/
theorem scanString_valid {fuel : Nat} {before text content rest : List UInt8}
    (read : scanString fuel text = some (content, rest)) (valid : Valid (before ++ text)) :
    Valid (before ++ content) ∧ Valid rest := by
  induction fuel generalizing before text content rest with
  | zero => cases read
  | succ fuel ih =>
      cases text with
      | nil => cases read
      | cons c more =>
          rw [scanString] at read
          split_ifs at read with quote solidus
          · rw [quote] at valid
            obtain ⟨left, right⟩ := valid.split (by decide)
            rw [← List.append_nil before] at left
            exact handed_out (P := fun content => Valid (before ++ content))
              (Option.some.inj read) left right
          · rw [solidus] at valid
            obtain ⟨left, right⟩ := valid.split (by decide)
            obtain ⟨piece, escape, again⟩ := Option.bind_eq_some_iff.mp read
            obtain ⟨later, scanned, same⟩ := Option.map_eq_some_iff.mp again
            obtain ⟨letter, behind⟩ := escaped_valid escape right
            have others := @ih [] _ _ _ scanned behind
            exact handed_out (P := fun content => Valid (before ++ content)) same
              (left.append (letter.append others.1)) others.2
          · obtain ⟨later, scanned, same⟩ := Option.map_eq_some_iff.mp read
            have whole : Valid ((before ++ [c]) ++ more) := by rwa [List.append_assoc]
            have others := ih scanned whole
            rw [List.append_assoc] at others
            exact handed_out (P := fun content => Valid (before ++ content)) same
              others.1 others.2

variable {representable : List UInt8 → Bool}

theorem scanNumber_encoded {text rest : List UInt8} {value : Value}
    (read : scanNumber representable text = some (value, rest)) (valid : Valid text) :
    value.Encoded ∧ Valid rest := by
  rw [scanNumber] at read
  split_ifs at read
  exact handed_out (Option.some.inj read) (by simp only [Value.Encoded])
    (valid.dropWhile fun _ => isNumberByte_ascii)

theorem valid_after_mark {text : List UInt8} {mark : UInt8} (ascii : mark < 0x80)
    (found : (skip text).head? = some mark) (valid : Valid text) : Valid (skip text).tail := by
  have behind := valid_skip valid
  cases ahead : skip text with
  | nil =>
      rw [ahead] at found
      cases found
  | cons c more =>
      rw [ahead] at found behind
      injection found with same
      rw [same] at behind
      exact behind.tail ascii

mutual
theorem parseValue_encoded : (fuel : Nat) → {text rest : List UInt8} → {value : Value} →
    parseValue representable fuel text = some (value, rest) → Valid text →
    value.Encoded ∧ Valid rest
  | 0, _, _, _, read, _ => by
      rw [parseValue] at read
      cases read
  | fuel + 1, text, _, value, read, valid => by
      have behind := valid_skip valid
      rw [parseValue] at read
      cases ahead : skip text with
      | nil =>
          rw [ahead] at read
          cases read
      | cons c more =>
          rw [ahead] at read behind
          simp only at read
          split_ifs at read with string array none' object none' null true' false'
          · rw [string] at behind
            obtain ⟨found, scanned, same⟩ := Option.map_eq_some_iff.mp read
            have parts := @scanString_valid _ [] _ _ _ scanned (behind.tail (by decide))
            exact handed_out same (by simpa only [Value.Encoded, List.nil_append] using parts.1)
              parts.2
          · rw [array] at behind
            exact handed_out (Option.some.inj read) (by simp only [Value.Encoded, EncodedItems])
              (valid_after_mark (by decide) none' (behind.tail (by decide)))
          · rw [array] at behind
            obtain ⟨found, items, same⟩ := Option.map_eq_some_iff.mp read
            have parts := parseItems_encoded fuel items (behind.tail (by decide))
            exact handed_out same (by simpa only [Value.Encoded] using parts.1) parts.2
          · rw [object] at behind
            exact handed_out (Option.some.inj read) (by simp only [Value.Encoded, EncodedMembers])
              (valid_after_mark (by decide) none' (behind.tail (by decide)))
          · rw [object] at behind
            obtain ⟨found, members, same⟩ := Option.map_eq_some_iff.mp read
            have parts := parseMembers_encoded fuel members (behind.tail (by decide))
            exact handed_out same (by simpa only [Value.Encoded] using parts.1) parts.2
          · exact handed_out (Option.some.inj read) (by simp only [Value.Encoded])
              (@valid_behind_literal nullText _ (by simp [nullText]) null behind)
          · exact handed_out (Option.some.inj read) (by simp only [Value.Encoded])
              (@valid_behind_literal trueText _ (by simp [trueText]) true' behind)
          · exact handed_out (Option.some.inj read) (by simp only [Value.Encoded])
              (@valid_behind_literal falseText _ (by simp [falseText]) false' behind)
          · exact scanNumber_encoded read behind

theorem parseItems_encoded : (fuel : Nat) → {text rest : List UInt8} → {items : List Value} →
    parseItems representable fuel text = some (items, rest) → Valid text →
    EncodedItems items ∧ Valid rest
  | 0, _, _, _, read, _ => by
      rw [parseItems] at read
      cases read
  | fuel + 1, text, _, items, read, valid => by
      rw [parseItems] at read
      obtain ⟨⟨item, behind⟩, first, more⟩ := Option.bind_eq_some_iff.mp read
      have one := parseValue_encoded fuel first valid
      have next := valid_skip one.2
      simp only at more
      cases ahead : skip behind with
      | nil =>
          rw [ahead] at more
          cases more
      | cons c others =>
          rw [ahead] at more next
          simp only at more
          split_ifs at more with another last
          · rw [another] at next
            obtain ⟨found, parsed, same⟩ := Option.map_eq_some_iff.mp more
            have parts := parseItems_encoded fuel parsed (next.tail (by decide))
            exact handed_out same (by simpa only [EncodedItems] using ⟨one.1, parts.1⟩) parts.2
          · rw [last] at next
            exact handed_out (Option.some.inj more)
              (by simpa only [EncodedItems, and_true] using one.1) (next.tail (by decide))

theorem parseMembers_encoded : (fuel : Nat) → {text rest : List UInt8} →
    {members : List (List UInt8 × Value)} →
    parseMembers representable fuel text = some (members, rest) → Valid text →
    EncodedMembers members ∧ Valid rest
  | 0, _, _, _, read, _ => by
      rw [parseMembers] at read
      cases read
  | fuel + 1, text, _, members, read, valid => by
      have start := valid_skip valid
      rw [parseMembers] at read
      cases opening : skip text with
      | nil =>
          rw [opening] at read
          cases read
      | cons mark named =>
          rw [opening] at read start
          simp only at read
          split_ifs at read with quoted
          rw [quoted] at start
          obtain ⟨⟨key, behind⟩, scanned, rest'⟩ := Option.bind_eq_some_iff.mp read
          have name := @scanString_valid _ [] _ _ _ scanned (start.tail (by decide))
          have between := valid_skip name.2
          simp only at rest'
          cases separated : skip behind with
          | nil =>
              rw [separated] at rest'
              cases rest'
          | cons separator valued =>
              rw [separated] at rest' between
              simp only at rest'
              split_ifs at rest' with colon'
              rw [colon'] at between
              obtain ⟨⟨value, after⟩, parsed, more⟩ := Option.bind_eq_some_iff.mp rest'
              have one := parseValue_encoded fuel parsed (between.tail (by decide))
              have next := valid_skip one.2
              simp only at more
              cases ahead : skip after with
              | nil =>
                  rw [ahead] at more
                  cases more
              | cons c others =>
                  rw [ahead] at more next
                  simp only at more
                  split_ifs at more with another last
                  · rw [another] at next
                    obtain ⟨found, later, same⟩ := Option.map_eq_some_iff.mp more
                    have parts := parseMembers_encoded fuel later (next.tail (by decide))
                    exact handed_out same
                      (by simpa only [EncodedMembers] using ⟨name.1, one.1, parts.1⟩) parts.2
                  · rw [last] at next
                    exact handed_out (Option.some.inj more)
                      (by simpa only [EncodedMembers, and_true] using ⟨name.1, one.1⟩)
                      (next.tail (by decide))
end

theorem parse_encoded {text : List UInt8} {value : Value}
    (parsed : parse representable text = some value) : value.Encoded := by
  unfold parse at parsed
  split_ifs at parsed with valid
  obtain ⟨⟨found, rest⟩, read, last⟩ := Option.bind_eq_some_iff.mp parsed
  simp only at last
  split_ifs at last
  injection last with same
  rw [← same]
  exact (parseValue_encoded _ read valid).1

end JsonText
