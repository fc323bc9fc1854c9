import Arcal.Lib.JsonRender

/-! When rendered text is JSON text at all. A parser takes it exactly when every literal is a
number and every string valid UTF-8, provided that the other literals could not be taken for
the beginning of something else. -/

namespace JsonText

variable {representable : List UInt8 → Bool}

/-- A literal that no value begins with, whatever follows it. -/
structure Refused (representable : List UInt8 → Bool) (literal : List UInt8) : Prop where
  head : ∃ c rest, literal = c :: rest ∧ isSpace c = false ∧ c ≠ endArray
  stops : ∀ fuel tail, parseValue representable fuel (literal ++ tail) = none

mutual
/-- Every literal is a number within the limits, or is refused. -/
def Value.Settled (representable : List UInt8 → Bool) : Value → Prop
  | .number literal =>
      isNumber literal = true ∧ representable literal = true ∨ Refused representable literal
  | .array items => SettledItems representable items
  | .object members => SettledMembers representable members
  | _ => True

def SettledItems (representable : List UInt8 → Bool) : List Value → Prop
  | [] => True
  | item :: rest => item.Settled representable ∧ SettledItems representable rest

def SettledMembers (representable : List UInt8 → Bool) : List (List UInt8 × Value) → Prop
  | [] => True
  | member :: rest => member.2.Settled representable ∧ SettledMembers representable rest
end

mutual
theorem settled_of_sound : (value : Value) → value.Sound representable →
    value.Settled representable
  | .null, _ => by simp only [Value.Settled]
  | .bool _, _ => by simp only [Value.Settled]
  | .string _, _ => by simp only [Value.Settled]
  | .number literal, sound => by
      simp only [Value.Sound, Value.Settled] at sound ⊢
      exact .inl sound
  | .array items, sound => by
      simp only [Value.Sound, Value.Settled] at sound ⊢
      exact settledItems_of_sound items sound
  | .object members, sound => by
      simp only [Value.Sound, Value.Settled] at sound ⊢
      exact settledMembers_of_sound members sound

theorem settledItems_of_sound : (items : List Value) → SoundItems representable items →
    SettledItems representable items
  | [], _ => by simp only [SettledItems]
  | item :: rest, sound => by
      simp only [SoundItems, SettledItems] at sound ⊢
      exact ⟨settled_of_sound item sound.1, settledItems_of_sound rest sound.2⟩

theorem settledMembers_of_sound : (members : List (List UInt8 × Value)) →
    SoundMembers representable members → SettledMembers representable members
  | [], _ => by simp only [SettledMembers]
  | member :: rest, sound => by
      simp only [SoundMembers, SettledMembers] at sound ⊢
      exact ⟨settled_of_sound member.2 sound.1, settledMembers_of_sound rest sound.2⟩
end

theorem settled_head {value : Value} (settled : value.Settled representable) :
    ∃ c rest, render value = c :: rest ∧ isSpace c = false ∧ c ≠ endArray := by
  cases value with
  | number literal =>
      simp only [Value.Settled] at settled
      rw [render]
      cases settled with
      | inl sound =>
          have whole : (Value.number literal).Sound representable := by
            simpa only [Value.Sound] using sound
          simpa only [render] using render_head whole
      | inr refused => exact refused.head
  | null => exact ⟨_, _, rfl, by decide, by decide⟩
  | bool b =>
      cases b with
      | true => exact ⟨_, _, rfl, by decide, by decide⟩
      | false => exact ⟨_, _, rfl, by decide, by decide⟩
  | string text => exact ⟨quotationMark, _, by rw [render, quote], by decide, by decide⟩
  | array items => exact ⟨beginArray, _, by rw [render], by decide, by decide⟩
  | object members => exact ⟨beginObject, _, by rw [render], by decide, by decide⟩

/-- The items behind the first one and the end of the array. -/
def restOfItems (rest : List Value) (tail : List UInt8) : List UInt8 :=
  continued (renderItems rest) ++ endArray :: tail

def restOfMembers (rest : List (List UInt8 × Value)) (tail : List UInt8) : List UInt8 :=
  continued (renderMembers rest) ++ endObject :: tail

theorem ends_restOfItems (rest : List Value) (tail : List UInt8) : Ends (restOfItems rest tail) := by
  cases rest with
  | nil => exact ends_cons (by decide) tail
  | cons next others => exact ends_cons (by decide) _

theorem ends_restOfMembers (rest : List (List UInt8 × Value)) (tail : List UInt8) :
    Ends (restOfMembers rest tail) := by
  cases rest with
  | nil => exact ends_cons (by decide) tail
  | cons next others => exact ends_cons (by decide) _

theorem parseMembers_stops {fuel : Nat} (key : List UInt8) {text : List UInt8}
    (stops : parseValue representable fuel text = none) :
    parseMembers representable (fuel + 1) (quote key ++ colon :: text) = none := by
  have quoteVisible : isSpace quotationMark = false := by decide
  have colonVisible : isSpace colon = false := by decide
  rw [quote, List.cons_append, List.append_assoc, List.singleton_append, parseMembers,
    skip_cons quoteVisible]
  simp only [if_true, scanString_quote, Option.bind_some, skip_cons colonVisible, stops,
    Option.bind_none]

mutual
theorem parseValue_stops : (value : Value) → value.Settled representable →
    ¬ value.Sound representable → (fuel : Nat) → (tail : List UInt8) →
    2 * (render value ++ tail).length < fuel → Ends tail →
    parseValue representable fuel (render value ++ tail) = none
  | _, _, _, 0, _, enough, _ => absurd enough (Nat.not_lt_zero _)
  | .null, _, unsound, _ + 1, _, _, _ => absurd (by simp only [Value.Sound]) unsound
  | .bool _, _, unsound, _ + 1, _, _, _ => absurd (by simp only [Value.Sound]) unsound
  | .string _, _, unsound, _ + 1, _, _, _ => absurd (by simp only [Value.Sound]) unsound
  | .number literal, settled, unsound, fuel + 1, tail, _, _ => by
      simp only [Value.Settled, Value.Sound] at settled unsound
      rw [render]
      cases settled with
      | inl sound => exact absurd sound unsound
      | inr refused => exact refused.stops (fuel + 1) tail
  | .array [], _, unsound, _ + 1, _, _, _ => absurd (by simp only [Value.Sound, SoundItems]) unsound
  | .array (item :: rest), settled, unsound, fuel + 1, tail, enough, _ => by
      simp only [Value.Settled, Value.Sound] at settled unsound
      rw [render, List.cons_append, List.append_assoc, List.singleton_append] at enough ⊢
      rw [List.length_cons] at enough
      have inside := parseItems_stops (item :: rest) settled unsound fuel tail (by omega)
      simp only [SettledItems] at settled
      rw [parseValue_array (settled_head settled.1), inside]
      rfl
  | .object [], _, unsound, _ + 1, _, _, _ =>
      absurd (by simp only [Value.Sound, SoundMembers]) unsound
  | .object (member :: rest), settled, unsound, fuel + 1, tail, enough, _ => by
      simp only [Value.Settled, Value.Sound] at settled unsound
      rw [render, List.cons_append, List.append_assoc, List.singleton_append] at enough ⊢
      rw [List.length_cons] at enough
      have inside := parseMembers_stops' (member :: rest) settled unsound fuel tail (by omega)
      rw [parseValue_object, inside]
      rfl

theorem parseItems_stops : (items : List Value) → SettledItems representable items →
    ¬ SoundItems representable items → (fuel : Nat) → (tail : List UInt8) →
    2 * (separated (renderItems items) ++ endArray :: tail).length + 1 < fuel →
    parseItems representable fuel (separated (renderItems items) ++ endArray :: tail) = none
  | [], _, unsound, _, _, _ => absurd (by simp only [SoundItems]) unsound
  | _ :: _, _, _, 0, _, enough => absurd enough (Nat.not_lt_zero _)
  | item :: rest, settled, unsound, fuel + 1, tail, enough => by
      simp only [SettledItems, SoundItems] at settled unsound
      have shape : separated (renderItems (item :: rest)) ++ endArray :: tail =
          render item ++ restOfItems rest tail := by
        rw [renderItems, separated, List.append_assoc, restOfItems]
      rw [shape] at enough ⊢
      by_cases sound : item.Sound representable
      · have one := parseValue_render item sound fuel (restOfItems rest tail) (by omega)
          (ends_restOfItems rest tail)
        match rest with
        | [] => exact absurd ⟨sound, by simp only [SoundItems]⟩ unsound
        | next :: others =>
            have visible : isSpace comma = false := by decide
            have more : restOfItems (next :: others) tail =
                comma :: (separated (renderItems (next :: others)) ++ endArray :: tail) := by
              simp [restOfItems, renderItems, separated, continued]
            rw [more] at one enough ⊢
            rw [List.length_append, List.length_cons] at enough
            have later := parseItems_stops (next :: others) settled.2
              (fun fine => unsound ⟨sound, fine⟩) fuel tail (by omega)
            simp only [parseItems, one, Option.bind_some, skip_cons visible, if_true, later,
              Option.map_none]
      · have one := parseValue_stops item settled.1 sound fuel (restOfItems rest tail) (by omega)
          (ends_restOfItems rest tail)
        simp only [parseItems, one, Option.bind_none]

theorem parseMembers_stops' : (members : List (List UInt8 × Value)) →
    SettledMembers representable members → ¬ SoundMembers representable members → (fuel : Nat) →
    (tail : List UInt8) →
    2 * (separated (renderMembers members) ++ endObject :: tail).length + 1 < fuel →
    parseMembers representable fuel (separated (renderMembers members) ++ endObject :: tail) = none
  | [], _, unsound, _, _, _ => absurd (by simp only [SoundMembers]) unsound
  | _ :: _, _, _, 0, _, enough => absurd enough (Nat.not_lt_zero _)
  | (key, value) :: rest, settled, unsound, fuel + 1, tail, enough => by
      simp only [SettledMembers, SoundMembers] at settled unsound
      have shape : separated (renderMembers ((key, value) :: rest)) ++ endObject :: tail =
          quote key ++ colon :: (render value ++ restOfMembers rest tail) := by
        simp [renderMembers, separated, restOfMembers]
      rw [shape] at enough ⊢
      rw [List.length_append, List.length_cons] at enough
      by_cases sound : value.Sound representable
      · have one := parseValue_render value sound fuel (restOfMembers rest tail) (by omega)
          (ends_restOfMembers rest tail)
        match rest with
        | [] => exact absurd ⟨sound, by simp only [SoundMembers]⟩ unsound
        | next :: others =>
            have more : restOfMembers (next :: others) tail =
                comma :: (separated (renderMembers (next :: others)) ++ endObject :: tail) := by
              obtain ⟨name, value⟩ := next
              simp [restOfMembers, renderMembers, separated, continued]
            rw [more] at one enough ⊢
            rw [List.length_append, List.length_cons] at enough
            have later := parseMembers_stops' (next :: others) settled.2
              (fun fine => unsound ⟨sound, fine⟩) fuel tail (by omega)
            rw [parseMembers_more key one, later]
            rfl
      · have one := parseValue_stops value settled.1 sound fuel (restOfMembers rest tail)
          (by omega) (ends_restOfMembers rest tail)
        exact parseMembers_stops key one
end

theorem valid_of_quote {text : List UInt8} (valid : Utf8.Valid (quote text)) : Utf8.Valid text := by
  have mark : quotationMark < 0x80 := by decide
  have behind := valid.tail mark
  have body := (Utf8.Valid.split behind mark).1
  have letters : ∀ c, escapeByte c ≠ [] := by
    intro c empty
    have positive := length_escapeByte c
    rw [empty] at positive
    cases positive
  exact Utf8.Valid.of_flatMap escapeByte (fun _ => escapeByte_wide)
    (fun _ ascii => escapeByte_ascii ascii) letters [] body

mutual
theorem encoded_of_valid : (value : Value) → Utf8.Valid (render value) → value.Encoded
  | .null, _ => by simp only [Value.Encoded]
  | .bool _, _ => by simp only [Value.Encoded]
  | .number _, _ => by simp only [Value.Encoded]
  | .string text, valid => by
      rw [render] at valid
      simp only [Value.Encoded]
      exact valid_of_quote valid
  | .array items, valid => by
      have opening : beginArray < 0x80 := by decide
      have closing : endArray < 0x80 := by decide
      rw [render] at valid
      have behind := valid.tail opening
      simp only [Value.Encoded]
      exact encodedItems_of_valid items (Utf8.Valid.split behind closing).1
  | .object members, valid => by
      have opening : beginObject < 0x80 := by decide
      have closing : endObject < 0x80 := by decide
      rw [render] at valid
      have behind := valid.tail opening
      simp only [Value.Encoded]
      exact encodedMembers_of_valid members (Utf8.Valid.split behind closing).1

theorem encodedItems_of_valid : (items : List Value) →
    Utf8.Valid (separated (renderItems items)) → EncodedItems items
  | [], _ => by simp only [EncodedItems]
  | [item], valid => by
      simp only [renderItems, separated, continued, List.flatMap_nil, List.append_nil] at valid
      simp only [EncodedItems, and_true]
      exact encoded_of_valid item valid
  | item :: next :: rest, valid => by
      have mark : comma < 0x80 := by decide
      have shape : separated (renderItems (item :: next :: rest)) =
          render item ++ comma :: separated (renderItems (next :: rest)) := by
        simp [renderItems, separated, continued]
      rw [shape] at valid
      have parts := Utf8.Valid.split valid mark
      have later := encodedItems_of_valid (next :: rest) parts.2
      rw [EncodedItems]
      exact ⟨encoded_of_valid item parts.1, later⟩

theorem encodedMembers_of_valid : (members : List (List UInt8 × Value)) →
    Utf8.Valid (separated (renderMembers members)) → EncodedMembers members
  | [], _ => by simp only [EncodedMembers]
  | [(key, value)], valid => by
      have mark : colon < 0x80 := by decide
      simp only [renderMembers, separated, continued, List.flatMap_nil, List.append_nil] at valid
      have parts := Utf8.Valid.split valid mark
      simp only [EncodedMembers, and_true]
      exact ⟨valid_of_quote parts.1, encoded_of_valid value parts.2⟩
  | (key, value) :: next :: rest, valid => by
      have mark : comma < 0x80 := by decide
      have between : colon < 0x80 := by decide
      have shape : separated (renderMembers ((key, value) :: next :: rest)) =
          (quote key ++ colon :: render value) ++
            comma :: separated (renderMembers (next :: rest)) := by
        simp [renderMembers, separated, continued]
      rw [shape] at valid
      have parts := Utf8.Valid.split valid mark
      have first := Utf8.Valid.split parts.1 between
      have later := encodedMembers_of_valid (next :: rest) parts.2
      rw [EncodedMembers]
      exact ⟨valid_of_quote first.1, encoded_of_valid value first.2, later⟩
end

theorem soundItems_iff {items : List Value} :
    SoundItems representable items ↔ ∀ item ∈ items, item.Sound representable := by
  induction items with
  | nil => simp [SoundItems]
  | cons item rest ih => rw [SoundItems, ih, List.forall_mem_cons]

theorem soundMembers_iff {members : List (List UInt8 × Value)} :
    SoundMembers representable members ↔ ∀ member ∈ members, member.2.Sound representable := by
  induction members with
  | nil => simp [SoundMembers]
  | cons member rest ih => rw [SoundMembers, ih, List.forall_mem_cons]

theorem settledItems_iff {items : List Value} :
    SettledItems representable items ↔ ∀ item ∈ items, item.Settled representable := by
  induction items with
  | nil => simp [SettledItems]
  | cons item rest ih => rw [SettledItems, ih, List.forall_mem_cons]

theorem settledMembers_iff {members : List (List UInt8 × Value)} :
    SettledMembers representable members ↔
      ∀ member ∈ members, member.2.Settled representable := by
  induction members with
  | nil => simp [SettledMembers]
  | cons member rest ih => rw [SettledMembers, ih, List.forall_mem_cons]

theorem encodedItems_iff {items : List Value} :
    EncodedItems items ↔ ∀ item ∈ items, item.Encoded := by
  induction items with
  | nil => simp [EncodedItems]
  | cons item rest ih => rw [EncodedItems, ih, List.forall_mem_cons]

theorem encodedMembers_iff {members : List (List UInt8 × Value)} :
    EncodedMembers members ↔ ∀ member ∈ members, Utf8.Valid member.1 ∧ member.2.Encoded := by
  induction members with
  | nil => simp [EncodedMembers]
  | cons member rest ih => rw [EncodedMembers, ih, List.forall_mem_cons, and_assoc]

theorem parse_render_eq_some_iff {value found : Value} (settled : value.Settled representable) :
    parse representable (render value) = some found ↔
      value.Sound representable ∧ value.Encoded ∧ found = value := by
  have ends : Ends [] := fun c first => nomatch first
  constructor
  · intro taken
    by_cases valid : Utf8.Valid (render value)
    · by_cases sound : value.Sound representable
      · rw [parse_render sound valid] at taken
        exact ⟨sound, encoded_of_valid value valid, (Option.some.inj taken).symm⟩
      · have stops := parseValue_stops value settled sound (2 * (render value).length + 1) []
          (by simp) ends
        rw [List.append_nil] at stops
        rw [parse, if_pos valid, stops] at taken
        cases taken
    · rw [parse, if_neg valid] at taken
      cases taken
  · rintro ⟨sound, encoded, rfl⟩
    exact parse_render sound (valid_render _ sound encoded)

theorem render_injective {left right : Value} (soundLeft : left.Sound representable)
    (soundRight : right.Sound representable) (same : render left = render right) : left = right := by
  have ends : Ends [] := fun c first => nomatch first
  have readLeft := parseValue_render left soundLeft (2 * (render left).length + 1) [] (by simp) ends
  have readRight := parseValue_render right soundRight (2 * (render right).length + 1) []
    (by simp) ends
  rw [same, readRight] at readLeft
  exact (congrArg Prod.fst (Option.some.inj readLeft)).symm

end JsonText
