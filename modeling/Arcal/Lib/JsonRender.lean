import Arcal.Lib.JsonText
import Mathlib.Data.List.TakeWhile

/-! What is rendered parses to the same value. The strings may hold any bytes; valid UTF-8
only matters for the text as a whole. -/

namespace JsonText

theorem hex4_pair (c : UInt8) (rest : List UInt8) :
    hex4 (0x30 :: 0x30 :: (Hex.pair c ++ rest)) = some (c.toNat, rest) := by
  have zero : Hex.value 0x30 = some 0 := by decide
  have high := Hex.value_high c
  have low := Hex.value_low c
  have whole : c.toNat / 16 * 16 + c.toNat % 16 = c.toNat := by omega
  simp [Hex.pair, hex4, zero, high, low, whole]

theorem unicode_control (c : UInt8) (control : c < 0x20) (rest : List UInt8) :
    unicode (0x30 :: 0x30 :: (Hex.pair c ++ rest)) = some ([c], rest) := by
  have small : c.toNat < 32 := control
  have ascii : c < 0x80 := by
    change c.toNat < 128
    omega
  have noHigh : ¬ (0xd800 ≤ c.toNat ∧ c.toNat < 0xdc00) := by omega
  have noLow : ¬ (0xdc00 ≤ c.toNat ∧ c.toNat < 0xe000) := by omega
  simp [unicode, hex4_pair, noHigh, noLow, Utf8.utf8EncodeChar_ofNat c ascii]

theorem shortEscape_cases {c letter : UInt8} (short : shortEscape c = some letter) :
    letter = c ∧ (c = quotationMark ∨ c = reverseSolidus) ∨ c = 0x08 ∧ letter = 0x62 ∨
      c = 0x0c ∧ letter = 0x66 ∨ c = 0x0a ∧ letter = 0x6e ∨ c = 0x0d ∧ letter = 0x72 ∨
      c = 0x09 ∧ letter = 0x74 := by
  rw [shortEscape] at short
  split_ifs at short with mark
  all_goals cases short
  · exact Or.inl ⟨rfl, mark⟩
  all_goals simp_all

theorem unescape_shortEscape {c letter : UInt8} (short : shortEscape c = some letter) :
    unescape letter = some c ∧ letter ≠ 0x75 := by
  rcases shortEscape_cases short with ⟨rfl, rfl | rfl⟩ | ⟨rfl, rfl⟩ | ⟨rfl, rfl⟩ | ⟨rfl, rfl⟩ |
    ⟨rfl, rfl⟩ | ⟨rfl, rfl⟩
  all_goals decide

theorem shortEscape_ascii {c letter : UInt8} (short : shortEscape c = some letter) :
    c < 0x80 ∧ letter < 0x80 := by
  rcases shortEscape_cases short with ⟨rfl, rfl | rfl⟩ | ⟨rfl, rfl⟩ | ⟨rfl, rfl⟩ | ⟨rfl, rfl⟩ |
    ⟨rfl, rfl⟩ | ⟨rfl, rfl⟩
  all_goals decide

theorem shortEscape_mark : shortEscape quotationMark = some quotationMark ∧
    shortEscape reverseSolidus = some reverseSolidus := by decide

theorem scanString_escapeByte (fuel : Nat) (c : UInt8) (rest : List UInt8) :
    scanString (fuel + 1) (escapeByte c ++ rest) =
      (scanString fuel rest).map fun more => (c :: more.1, more.2) := by
  have different : reverseSolidus ≠ quotationMark := by decide
  unfold escapeByte
  split
  · next letter short =>
    rcases unescape_shortEscape short with ⟨known, other⟩
    simp [scanString, different, escaped, other, known]
  · next plain =>
    have noQuote : c ≠ quotationMark := by
      intro same
      rw [same, shortEscape_mark.1] at plain
      cases plain
    have noSolidus : c ≠ reverseSolidus := by
      intro same
      rw [same, shortEscape_mark.2] at plain
      cases plain
    split
    · next control =>
      rw [List.append_assoc, List.cons_append, scanString, if_neg different, if_pos rfl]
      simp only [List.cons_append, List.nil_append, escaped, if_true,
        unicode_control c control rest, Option.bind_some]
    · next printable =>
      rw [List.singleton_append, scanString, if_neg noQuote, if_neg noSolidus, if_neg printable]

theorem scanString_quoted (text tail : List UInt8) (fuel : Nat)
    (enough : text.length < fuel) :
    scanString fuel (text.flatMap escapeByte ++ quotationMark :: tail) = some (text, tail) := by
  induction text generalizing fuel with
  | nil =>
      obtain ⟨fuel, rfl⟩ := Nat.exists_eq_succ_of_ne_zero (by omega : fuel ≠ 0)
      simp [scanString]
  | cons c rest ih =>
      obtain ⟨fuel, rfl⟩ := Nat.exists_eq_succ_of_ne_zero (by omega : fuel ≠ 0)
      rw [List.flatMap_cons, List.append_assoc, Nat.succ_eq_add_one, scanString_escapeByte,
        ih fuel (by simpa using enough)]
      rfl

theorem length_escapeByte (c : UInt8) : 0 < (escapeByte c).length := by
  unfold escapeByte
  split
  · simp
  · split
    · simp
    · simp

theorem length_le_flatMap_escapeByte (text : List UInt8) :
    text.length ≤ (text.flatMap escapeByte).length := by
  induction text with
  | nil => exact Nat.le_refl _
  | cons c rest ih =>
      have positive := length_escapeByte c
      rw [List.flatMap_cons, List.length_append, List.length_cons]
      omega

theorem scanString_quote (text tail : List UInt8) :
    scanString ((text.flatMap escapeByte ++ quotationMark :: tail).length + 1)
      (text.flatMap escapeByte ++ quotationMark :: tail) = some (text, tail) := by
  apply scanString_quoted
  have fits := length_le_flatMap_escapeByte text
  rw [List.length_append, List.length_cons]
  omega

/-- The text after a value does not go on with the characters of a number. -/
def Ends (tail : List UInt8) : Prop := ∀ c, tail.head? = some c → isNumberByte c = false

theorem isNumberByte_of_isDigit {c : UInt8} (digit : Decimal.isDigit c = true) :
    isNumberByte c = true := by
  simp [isNumberByte, digit]

theorem split_takeWhile (p : UInt8 → Bool) {text : List UInt8} {c : UInt8} (member : c ∈ text) :
    p c = true ∨ c ∈ text.dropWhile p := by
  rw [← List.takeWhile_append_dropWhile (p := p) (l := text), List.mem_append] at member
  rcases member with front | back
  · exact .inl (List.all_eq_true.mp List.all_takeWhile c front)
  · exact .inr back

theorem isExponent_bytes {text : List UInt8} (exponent : isExponent text = true) {c : UInt8}
    (member : c ∈ text) : isNumberByte c = true := by
  match text with
  | e :: rest =>
      simp only [isExponent, Bool.and_eq_true, Bool.or_eq_true, beq_iff_eq] at exponent
      rcases exponent with ⟨⟨mark, _⟩, digits⟩
      rcases List.mem_cons.mp member with rfl | later
      · rcases mark with rfl | rfl
        · rfl
        · rfl
      · split at digits
        · next sign =>
          match rest with
          | first :: others =>
              rcases List.mem_cons.mp later with rfl | inside
              · rcases sign with same | same
                · injection same with same
                  rw [same]
                  rfl
                · injection same with same
                  rw [same]
                  rfl
              · exact isNumberByte_of_isDigit (List.all_eq_true.mp digits c inside)
        · exact isNumberByte_of_isDigit (List.all_eq_true.mp digits c later)

theorem isFraction_bytes {text : List UInt8} (fraction : isFraction text = true) {c : UInt8}
    (member : c ∈ text) : isNumberByte c = true := by
  unfold isFraction at fraction
  split at fraction
  · next point =>
    match text with
    | first :: rest =>
        injection point with point
        rw [Bool.and_eq_true] at fraction
        rcases List.mem_cons.mp member with same | later
        · rw [same, point]
          rfl
        · rcases split_takeWhile Decimal.isDigit later with digit | after
          · exact isNumberByte_of_isDigit digit
          · exact isExponent_bytes fraction.2 after
  · exact isExponent_bytes fraction member

theorem isNumber_bytes {literal : List UInt8} (number : isNumber literal = true) {c : UInt8}
    (member : c ∈ literal) : isNumberByte c = true := by
  simp only [isNumber, Bool.and_eq_true] at number
  have inMagnitude : c ∈ magnitude literal → isNumberByte c = true := by
    intro inside
    rcases split_takeWhile Decimal.isDigit inside with digit | after
    · exact isNumberByte_of_isDigit digit
    · exact isFraction_bytes number.2 after
  unfold magnitude at inMagnitude
  split at inMagnitude
  · next sign =>
    match literal with
    | first :: rest =>
        injection sign with sign
        rcases List.mem_cons.mp member with same | later
        · rw [same, sign]
          rfl
        · exact inMagnitude later
  · exact inMagnitude member

theorem isNumber_head {literal : List UInt8} (number : isNumber literal = true) :
    ∃ c rest, literal = c :: rest ∧ (Decimal.isDigit c = true ∨ c = minus) := by
  match literal with
  | [] => cases number
  | c :: rest =>
      refine ⟨c, rest, rfl, ?_⟩
      by_cases sign : c = minus
      · exact .inr sign
      · left
        have whole : magnitude (c :: rest) = c :: rest := by simp [magnitude, sign]
        simp only [isNumber, whole, Bool.and_eq_true, Bool.or_eq_true] at number
        cases digit : Decimal.isDigit c with
        | true => rfl
        | false => simp [digit] at number

theorem scanNumber_literal {representable : List UInt8 → Bool} {literal tail : List UInt8}
    (number : isNumber literal = true) (fits : representable literal = true) (ends : Ends tail) :
    scanNumber representable (literal ++ tail) = some (.number literal, tail) := by
  have all : ∀ c ∈ literal, isNumberByte c = true := fun c => isNumber_bytes number
  have none' : tail.takeWhile isNumberByte = [] ∧ tail.dropWhile isNumberByte = tail := by
    cases tail with
    | nil => exact ⟨rfl, rfl⟩
    | cons c rest =>
        have stop := ends c rfl
        simp [stop]
  have front : (literal ++ tail).takeWhile isNumberByte = literal := by
    rw [List.takeWhile_append_of_pos all, none'.1, List.append_nil]
  have back : (literal ++ tail).dropWhile isNumberByte = tail := by
    rw [List.dropWhile_append_of_pos all, none'.2]
  rw [scanNumber, front, back, number, fits]
  rfl

theorem minus_not_digit : Decimal.isDigit minus = false := by decide

theorem magnitude_digits (n : Nat) : magnitude (Decimal.digits n) = Decimal.digits n := by
  unfold magnitude
  split
  · next sign =>
    have digit := Decimal.isDigit_of_mem_digits (List.mem_of_mem_head? sign)
    rw [minus_not_digit] at digit
    cases digit
  · rfl

theorem magnitude_minus (literal : List UInt8) : magnitude (minus :: literal) = literal := rfl

theorem isNumber_of_magnitude {literal : List UInt8} {n : Nat}
    (numeral : magnitude literal = Decimal.digits n) : isNumber literal = true := by
  have digits : ∀ c ∈ Decimal.digits n, Decimal.isDigit c = true :=
    fun c => Decimal.isDigit_of_mem_digits
  have whole : (Decimal.digits n).takeWhile Decimal.isDigit = Decimal.digits n :=
    List.takeWhile_eq_self_iff.mpr digits
  have nothing : (Decimal.digits n).dropWhile Decimal.isDigit = [] :=
    List.dropWhile_eq_nil_iff.mpr digits
  have nonempty := Decimal.digits_ne_nil n
  simp only [isNumber, numeral, whole, nothing]
  rcases Decimal.digits_head n with zero | other
  · rw [zero]
    rfl
  · simp [nonempty, other, isFraction, isExponent]

theorem skip_cons {c : UInt8} (visible : isSpace c = false) (rest : List UInt8) :
    skip (c :: rest) = c :: rest := by
  simp [skip, visible]

theorem number_start {c : UInt8} (start : Decimal.isDigit c = true ∨ c = minus) :
    isSpace c = false ∧ c ≠ quotationMark ∧ c ≠ beginArray ∧ c ≠ beginObject ∧
      c ≠ endArray ∧ c ≠ 0x6e ∧ c ≠ 0x74 ∧ c ≠ 0x66 := by
  have all : ∀ k : Fin 256, Decimal.isDigit (UInt8.ofNat k) = true ∨ UInt8.ofNat k = minus →
      isSpace (UInt8.ofNat k) = false ∧ UInt8.ofNat k ≠ quotationMark ∧
        UInt8.ofNat k ≠ beginArray ∧ UInt8.ofNat k ≠ beginObject ∧ UInt8.ofNat k ≠ endArray ∧
        UInt8.ofNat k ≠ 0x6e ∧ UInt8.ofNat k ≠ 0x74 ∧ UInt8.ofNat k ≠ 0x66 := by
    decide +kernel
  have here := all ⟨c.toNat, c.toNat_lt⟩
  rw [UInt8.ofNat_toNat] at here
  exact here start

section Values

variable {representable : List UInt8 → Bool}

theorem render_head {value : Value} (sound : value.Sound representable) :
    ∃ c rest, render value = c :: rest ∧ isSpace c = false ∧ c ≠ endArray := by
  cases value with
  | null => exact ⟨_, _, rfl, by decide, by decide⟩
  | bool b =>
      cases b with
      | true => exact ⟨_, _, rfl, by decide, by decide⟩
      | false => exact ⟨_, _, rfl, by decide, by decide⟩
  | number literal =>
      simp only [Value.Sound] at sound
      rcases isNumber_head sound.1 with ⟨c, rest, same, start⟩
      have apart := number_start start
      exact ⟨c, rest, by rw [render, same], apart.1, apart.2.2.2.2.1⟩
  | string text => exact ⟨quotationMark, _, by rw [render, quote], by decide, by decide⟩
  | array items => exact ⟨beginArray, _, by rw [render], by decide, by decide⟩
  | object members => exact ⟨beginObject, _, by rw [render], by decide, by decide⟩

theorem parseValue_string (fuel : Nat) (text tail : List UInt8) :
    parseValue representable (fuel + 1) (quote text ++ tail) = some (.string text, tail) := by
  have visible : isSpace quotationMark = false := by decide
  rw [quote, List.cons_append, List.append_assoc, List.singleton_append, parseValue,
    skip_cons visible]
  simp only [if_true]
  rw [scanString_quote]
  rfl

theorem parseValue_number {literal tail : List UInt8} (fuel : Nat)
    (number : isNumber literal = true) (fits : representable literal = true) (ends : Ends tail) :
    parseValue representable (fuel + 1) (literal ++ tail) = some (.number literal, tail) := by
  rcases isNumber_head number with ⟨c, rest, same, start⟩
  rcases number_start start with ⟨visible, noQuote, noArray, noObject, _, noN, noT, noF⟩
  have scanned := scanNumber_literal number fits ends
  rw [same, List.cons_append] at scanned ⊢
  have noNull : nullText.isPrefixOf (c :: (rest ++ tail)) = false := by
    simp [nullText, List.isPrefixOf, noN.symm]
  have noTrue : trueText.isPrefixOf (c :: (rest ++ tail)) = false := by
    simp [trueText, List.isPrefixOf, noT.symm]
  have noFalse : falseText.isPrefixOf (c :: (rest ++ tail)) = false := by
    simp [falseText, List.isPrefixOf, noF.symm]
  rw [parseValue, skip_cons visible]
  simp only [noQuote, noArray, noObject, noNull, noTrue, noFalse, if_false, Bool.false_eq_true]
  exact scanned

theorem ends_cons {c : UInt8} (other : isNumberByte c = false) (rest : List UInt8) :
    Ends (c :: rest) := by
  intro d first
  injection first with same
  rw [← same]
  exact other

theorem parseMembers_last {fuel : Nat} {text tail : List UInt8} {value : Value}
    (key : List UInt8)
    (read : parseValue representable fuel text = some (value, endObject :: tail)) :
    parseMembers representable (fuel + 1) (quote key ++ colon :: text) =
      some ([(key, value)], tail) := by
  have quoteVisible : isSpace quotationMark = false := by decide
  have colonVisible : isSpace colon = false := by decide
  have visible : isSpace endObject = false := by decide
  have notComma : endObject ≠ comma := by decide
  rw [quote, List.cons_append, List.append_assoc, List.singleton_append, parseMembers,
    skip_cons quoteVisible]
  simp only [if_true, scanString_quote, Option.bind_some, skip_cons colonVisible, read,
    skip_cons visible, notComma, if_false]

theorem parseMembers_more {fuel : Nat} {text rest : List UInt8} {value : Value}
    (key : List UInt8) (read : parseValue representable fuel text = some (value, comma :: rest)) :
    parseMembers representable (fuel + 1) (quote key ++ colon :: text) =
      (parseMembers representable fuel rest).map fun more =>
        ((key, value) :: more.1, more.2) := by
  have quoteVisible : isSpace quotationMark = false := by decide
  have colonVisible : isSpace colon = false := by decide
  have visible : isSpace comma = false := by decide
  rw [quote, List.cons_append, List.append_assoc, List.singleton_append, parseMembers,
    skip_cons quoteVisible]
  simp only [if_true, scanString_quote, Option.bind_some, skip_cons colonVisible, read,
    skip_cons visible]

theorem parseValue_array {item : Value}
    (head : ∃ c more, render item = c :: more ∧ isSpace c = false ∧ c ≠ endArray) (fuel : Nat)
    (rest : List Value) (tail : List UInt8) :
    parseValue representable (fuel + 1)
        (beginArray :: (separated (renderItems (item :: rest)) ++ endArray :: tail)) =
      (parseItems representable fuel
        (separated (renderItems (item :: rest)) ++ endArray :: tail)).map fun found =>
          (.array found.1, found.2) := by
  have visible : isSpace beginArray = false := by decide
  have noQuote : beginArray ≠ quotationMark := by decide
  have notEmpty : (skip (separated (renderItems (item :: rest)) ++ endArray :: tail)).head? ≠
      some endArray := by
    rcases head with ⟨c, more, same, visible, other⟩
    rw [renderItems, separated, same, List.cons_append, List.cons_append, skip_cons visible]
    simpa using other
  rw [parseValue, skip_cons visible]
  simp only [noQuote, notEmpty, if_false, if_true]

theorem parseValue_object (fuel : Nat) (member : List UInt8 × Value)
    (rest : List (List UInt8 × Value)) (tail : List UInt8) :
    parseValue representable (fuel + 1)
        (beginObject :: (separated (renderMembers (member :: rest)) ++ endObject :: tail)) =
      (parseMembers representable fuel
        (separated (renderMembers (member :: rest)) ++ endObject :: tail)).map fun found =>
          (.object found.1, found.2) := by
  have visible : isSpace beginObject = false := by decide
  have noQuote : beginObject ≠ quotationMark := by decide
  have noArray : beginObject ≠ beginArray := by decide
  have quoteVisible : isSpace quotationMark = false := by decide
  have notEmpty : (skip (separated (renderMembers (member :: rest)) ++
      endObject :: tail)).head? ≠ some endObject := by
    rw [renderMembers, separated, quote, List.cons_append, List.cons_append, List.cons_append,
      skip_cons quoteVisible]
    simp [quotationMark, endObject]
  rw [parseValue, skip_cons visible]
  simp only [noQuote, noArray, notEmpty, if_false, if_true]

mutual
/-- Enough fuel is twice the length of the text: every call but the one that goes from a
list to its first piece takes at least one byte. -/
theorem parseValue_render : (value : Value) → value.Sound representable → (fuel : Nat) →
    (tail : List UInt8) → 2 * (render value ++ tail).length < fuel → Ends tail →
    parseValue representable fuel (render value ++ tail) = some (value, tail)
  | _, _, 0, _, enough, _ => absurd enough (Nat.not_lt_zero _)
  | .null, _, fuel + 1, tail, _, _ => by
      simp [render, nullText, parseValue, skip, isSpace, quotationMark, beginArray, beginObject,
        List.isPrefixOf]
  | .bool true, _, fuel + 1, tail, _, _ => by
      simp [render, nullText, trueText, parseValue, skip, isSpace, quotationMark, beginArray,
        beginObject, List.isPrefixOf]
  | .bool false, _, fuel + 1, tail, _, _ => by
      simp [render, nullText, trueText, falseText, parseValue, skip, isSpace, quotationMark,
        beginArray, beginObject, List.isPrefixOf]
  | .number literal, sound, fuel + 1, tail, _, ends => by
      simp only [Value.Sound] at sound
      rw [render]
      exact parseValue_number fuel sound.1 sound.2 ends
  | .string text, _, fuel + 1, tail, _, _ => by
      rw [render]
      exact parseValue_string fuel text tail
  | .array [], _, fuel + 1, tail, _, _ => by
      simp [render, renderItems, separated, parseValue, skip, isSpace, quotationMark, beginArray,
        endArray]
  | .array (item :: rest), sound, fuel + 1, tail, enough, _ => by
      simp only [Value.Sound] at sound
      rw [render, List.cons_append, List.append_assoc, List.singleton_append] at enough ⊢
      rw [List.length_cons] at enough
      have inside := parseItems_render (item :: rest) sound (by simp) fuel tail (by omega)
      simp only [SoundItems] at sound
      rw [parseValue_array (render_head sound.1), inside]
      rfl
  | .object [], _, fuel + 1, tail, _, _ => by
      simp [render, renderMembers, separated, parseValue, skip, isSpace, quotationMark, beginArray,
        beginObject, endObject]
  | .object (member :: rest), sound, fuel + 1, tail, enough, _ => by
      simp only [Value.Sound] at sound
      rw [render, List.cons_append, List.append_assoc, List.singleton_append] at enough ⊢
      rw [List.length_cons] at enough
      have inside := parseMembers_render (member :: rest) sound (by simp) fuel tail (by omega)
      rw [parseValue_object, inside]
      rfl

theorem parseItems_render : (items : List Value) → SoundItems representable items → items ≠ [] →
    (fuel : Nat) → (tail : List UInt8) →
    2 * (separated (renderItems items) ++ endArray :: tail).length + 1 < fuel →
    parseItems representable fuel (separated (renderItems items) ++ endArray :: tail) =
      some (items, tail)
  | [], _, nonempty, _, _, _ => absurd rfl nonempty
  | _ :: _, _, _, 0, _, enough => absurd enough (Nat.not_lt_zero _)
  | [item], sound, _, fuel + 1, tail, enough => by
      simp only [SoundItems] at sound
      have visible : isSpace endArray = false := by decide
      have notComma : endArray ≠ comma := by decide
      simp only [renderItems, separated, continued, List.flatMap_nil, List.append_nil]
        at enough ⊢
      have one := parseValue_render item sound.1 fuel (endArray :: tail) (by omega)
        (ends_cons (by decide) tail)
      simp only [parseItems, one, Option.bind_some, skip_cons visible, notComma, if_false, if_true]
  | item :: next :: rest, sound, _, fuel + 1, tail, enough => by
      simp only [SoundItems] at sound
      have visible : isSpace comma = false := by decide
      have shape : separated (renderItems (item :: next :: rest)) ++ endArray :: tail =
          render item ++ comma :: (separated (renderItems (next :: rest)) ++ endArray :: tail) := by
        simp [renderItems, separated, continued]
      rw [shape] at enough ⊢
      have one := parseValue_render item sound.1 fuel
        (comma :: (separated (renderItems (next :: rest)) ++ endArray :: tail)) (by omega)
        (ends_cons (by decide) _)
      rw [List.length_append, List.length_cons] at enough
      have others := parseItems_render (next :: rest) (by simpa only [SoundItems] using sound.2)
        (by simp) fuel tail (by omega)
      simp only [parseItems, one, Option.bind_some, skip_cons visible, if_true, others,
        Option.map_some]

theorem parseMembers_render : (members : List (List UInt8 × Value)) →
    SoundMembers representable members → members ≠ [] → (fuel : Nat) → (tail : List UInt8) →
    2 * (separated (renderMembers members) ++ endObject :: tail).length + 1 < fuel →
    parseMembers representable fuel (separated (renderMembers members) ++ endObject :: tail) =
      some (members, tail)
  | [], _, nonempty, _, _, _ => absurd rfl nonempty
  | _ :: _, _, _, 0, _, enough => absurd enough (Nat.not_lt_zero _)
  | [(key, value)], sound, _, fuel + 1, tail, enough => by
      simp only [SoundMembers] at sound
      have shape : separated (renderMembers [(key, value)]) ++ endObject :: tail =
          quote key ++ colon :: (render value ++ endObject :: tail) := by
        simp [renderMembers, separated, continued]
      rw [shape] at enough ⊢
      rw [List.length_append, List.length_cons] at enough
      have one := parseValue_render value sound.1 fuel (endObject :: tail) (by omega)
        (ends_cons (by decide) tail)
      exact parseMembers_last key one
  | (key, value) :: next :: rest, sound, _, fuel + 1, tail, enough => by
      simp only [SoundMembers] at sound
      have shape : separated (renderMembers ((key, value) :: next :: rest)) ++ endObject :: tail =
          quote key ++ colon :: (render value ++
            comma :: (separated (renderMembers (next :: rest)) ++ endObject :: tail)) := by
        simp [renderMembers, separated, continued]
      rw [shape] at enough ⊢
      rw [List.length_append, List.length_cons] at enough
      have one := parseValue_render value sound.1 fuel
        (comma :: (separated (renderMembers (next :: rest)) ++ endObject :: tail)) (by omega)
        (ends_cons (by decide) _)
      rw [List.length_append, List.length_cons] at enough
      have others := parseMembers_render (next :: rest)
        (by simpa only [SoundMembers] using sound.2) (by simp) fuel tail (by omega)
      rw [parseMembers_more key one, others]
      rfl
end

theorem isSpace_ascii {c : UInt8} (space : isSpace c = true) : c < 0x80 := by
  simp only [isSpace, Bool.or_eq_true, beq_iff_eq] at space
  rcases space with ((rfl | rfl) | rfl) | rfl
  · decide
  · decide
  · decide
  · decide

theorem parseValue_blanks {blanks : List UInt8} (blank : ∀ c ∈ blanks, isSpace c = true)
    (fuel : Nat) (text : List UInt8) :
    parseValue representable fuel (blanks ++ text) = parseValue representable fuel text := by
  cases fuel with
  | zero => rfl
  | succ fuel => simp only [parseValue, skip, List.dropWhile_append_of_pos blank]

/-- What is rendered parses to the same value, also behind white space. -/
theorem parse_blanks_render {value : Value} (sound : value.Sound representable)
    (valid : Utf8.Valid (render value)) {blanks : List UInt8}
    (blank : ∀ c ∈ blanks, isSpace c = true) :
    parse representable (blanks ++ render value) = some value := by
  have ends : Ends [] := by
    intro c first
    cases first
  have ascii : ∀ c ∈ blanks, c < 0x80 := fun c inside => isSpace_ascii (blank c inside)
  have read := parseValue_render value sound (2 * (blanks ++ render value).length + 1) []
    (by rw [List.append_nil, List.length_append]; omega) ends
  rw [List.append_nil] at read
  rw [parse, if_pos ((Utf8.valid_ascii ascii).append valid), parseValue_blanks blank, read]
  rfl

theorem parse_render {value : Value} (sound : value.Sound representable)
    (valid : Utf8.Valid (render value)) : parse representable (render value) = some value :=
  parse_blanks_render sound valid (List.forall_mem_nil _)

end Values

mutual
def Value.Encoded : Value → Prop
  | .string text => Utf8.Valid text
  | .array items => EncodedItems items
  | .object members => EncodedMembers members
  | _ => True

def EncodedItems : List Value → Prop
  | [] => True
  | item :: rest => item.Encoded ∧ EncodedItems rest

def EncodedMembers : List (List UInt8 × Value) → Prop
  | [] => True
  | member :: rest => Utf8.Valid member.1 ∧ member.2.Encoded ∧ EncodedMembers rest
end

theorem isNumberByte_ascii {c : UInt8} (byte : isNumberByte c = true) : c < 0x80 := by
  have all : ∀ k : Fin 256, isNumberByte (UInt8.ofNat k) = true → UInt8.ofNat k < 0x80 := by
    decide +kernel
  have here := all ⟨c.toNat, c.toNat_lt⟩
  rw [UInt8.ofNat_toNat] at here
  exact here byte

theorem pair_ascii (c : UInt8) : ∀ b ∈ Hex.pair c, b < 0x80 := by
  have below : ∀ n, n < 16 → Hex.digit n < 0x80 := fun n small =>
    UInt8.lt_of_le_of_lt (Hex.digit_range n small).2.1 (by decide)
  intro b member
  simp only [Hex.pair, List.mem_cons, List.not_mem_nil, or_false] at member
  cases member with
  | inl high => exact high ▸ below _ (Hex.digit_small_high c)
  | inr low => exact low ▸ below _ (Hex.digit_small_low c)

theorem escapeByte_wide {c : UInt8} (wide : ¬ c < 0x80) : escapeByte c = [c] := by
  have noShort : shortEscape c = none := by
    cases short : shortEscape c with
    | none => rfl
    | some letter => exact absurd (shortEscape_ascii short).1 wide
  have noControl : ¬ c < 0x20 := fun control => wide (UInt8.lt_trans control (by decide))
  rw [escapeByte, noShort]
  exact if_neg noControl

theorem escapeByte_ascii {c : UInt8} (ascii : c < 0x80) : ∀ b ∈ escapeByte c, b < 0x80 := by
  intro b member
  rw [escapeByte] at member
  cases short : shortEscape c with
  | some letter =>
      simp only [short, List.mem_cons, List.not_mem_nil, or_false] at member
      cases member with
      | inl mark => exact mark ▸ by decide
      | inr same => exact same ▸ (shortEscape_ascii short).2
  | none =>
      simp only [short] at member
      split_ifs at member with control
      · cases List.mem_append.mp member with
        | inl head =>
            simp only [List.mem_cons, List.not_mem_nil, or_false] at head
            rcases head with rfl | rfl | rfl | rfl
            all_goals decide
        | inr digit => exact pair_ascii c b digit
      · rw [List.mem_singleton.mp member]
        exact ascii

theorem valid_quote {text : List UInt8} (valid : Utf8.Valid text) : Utf8.Valid (quote text) := by
  have mark : Utf8.Valid [quotationMark] := Utf8.valid_singleton (by decide)
  have body := valid.flatMap escapeByte (fun _ => escapeByte_wide)
    (fun _ ascii => Utf8.valid_ascii (escapeByte_ascii ascii))
  exact mark.append (body.append mark)

theorem valid_continued {pieces : List (List UInt8)} (valid : ∀ piece ∈ pieces, Utf8.Valid piece) :
    Utf8.Valid (continued pieces) := by
  induction pieces with
  | nil => exact Utf8.valid_nil
  | cons piece rest ih =>
      have mark : Utf8.Valid [comma] := Utf8.valid_singleton (by decide)
      have later := ih fun other member => valid other (List.mem_cons_of_mem _ member)
      exact (mark.append (valid piece (by simp))).append later

theorem valid_separated {pieces : List (List UInt8)} (valid : ∀ piece ∈ pieces, Utf8.Valid piece) :
    Utf8.Valid (separated pieces) := by
  cases pieces with
  | nil => exact Utf8.valid_nil
  | cons piece rest =>
      exact (valid piece (by simp)).append
        (valid_continued fun other member => valid other (List.mem_cons_of_mem _ member))

section Encoding

variable {representable : List UInt8 → Bool}

mutual
theorem valid_render : (value : Value) → value.Sound representable → value.Encoded →
    Utf8.Valid (render value)
  | .null, _, _ => by
      rw [render]
      exact Utf8.valid_ascii (by simp [nullText])
  | .bool true, _, _ => by
      rw [render]
      exact Utf8.valid_ascii (by simp [trueText])
  | .bool false, _, _ => by
      rw [render]
      exact Utf8.valid_ascii (by simp [falseText])
  | .number literal, sound, _ => by
      simp only [Value.Sound] at sound
      rw [render]
      exact Utf8.valid_ascii fun c member => isNumberByte_ascii (isNumber_bytes sound.1 member)
  | .string text, _, encoded => by
      simp only [Value.Encoded] at encoded
      rw [render]
      exact valid_quote encoded
  | .array items, sound, encoded => by
      simp only [Value.Sound, Value.Encoded] at sound encoded
      have opening : Utf8.Valid [beginArray] := Utf8.valid_singleton (by decide)
      have closing : Utf8.Valid [endArray] := Utf8.valid_singleton (by decide)
      have pieces := valid_separated (valid_renderItems items sound encoded)
      rw [render]
      exact opening.append (pieces.append closing)
  | .object members, sound, encoded => by
      simp only [Value.Sound, Value.Encoded] at sound encoded
      have opening : Utf8.Valid [beginObject] := Utf8.valid_singleton (by decide)
      have closing : Utf8.Valid [endObject] := Utf8.valid_singleton (by decide)
      have pieces := valid_separated (valid_renderMembers members sound encoded)
      rw [render]
      exact opening.append (pieces.append closing)

theorem valid_renderItems : (items : List Value) → SoundItems representable items →
    EncodedItems items → ∀ piece ∈ renderItems items, Utf8.Valid piece
  | [], _, _ => by simp [renderItems]
  | item :: rest, sound, encoded => by
      simp only [SoundItems, EncodedItems] at sound encoded
      intro piece member
      rw [renderItems, List.mem_cons] at member
      rcases member with same | later
      · rw [same]
        exact valid_render item sound.1 encoded.1
      · exact valid_renderItems rest sound.2 encoded.2 piece later

theorem valid_renderMembers : (members : List (List UInt8 × Value)) →
    SoundMembers representable members → EncodedMembers members →
    ∀ piece ∈ renderMembers members, Utf8.Valid piece
  | [], _, _ => by simp [renderMembers]
  | (key, value) :: rest, sound, encoded => by
      simp only [SoundMembers, EncodedMembers] at sound encoded
      intro piece member
      rw [renderMembers, List.mem_cons] at member
      rcases member with same | later
      · have mark : Utf8.Valid [colon] := Utf8.valid_singleton (by decide)
        rw [same]
        exact (valid_quote encoded.1).append
          (mark.append (valid_render value sound.1 encoded.2.1))
      · exact valid_renderMembers rest sound.2 encoded.2.2 piece later
end

end Encoding

end JsonText
