import Arcal.Externalizer.Copy
import Arcal.Json.Floats
import Arcal.Json.ReadBack

/-! A text that is read and written again. It stays the same unless a number in it is not
finite or a negative zero, a string is not valid UTF-8, or an enum item goes by no name of
its table. -/

namespace Arcal.Json

open Schema
open JsonText (Value render)

def exponentField64 (bits : UInt64) : ℕ := bits.toNat / 2 ^ 52 % 2 ^ 11

def IsFinite64 (bits : UInt64) : Prop := exponentField64 bits ≠ 2047

instance (bits : UInt64) : Decidable (IsFinite64 bits) := inferInstanceAs (Decidable (_ ≠ _))

def negativeZero : UInt32 := 0x80000000

def negativeZero64 : UInt64 := 0x8000000000000000

def notFiniteTexts : List Bytes := [utf8 "nan", utf8 "-nan", utf8 "inf", utf8 "-inf"]

def zeroText : Bytes := utf8 "0"

def negativeZeroText : Bytes := utf8 "-0"

/-- One format: its `printf` conversion `print`, and `get` on what the parser stored. -/
structure Prints (fp : Floating) {α : Type} (Finite : α → Prop) (negative : α)
    (print : α → Bytes) (get : Number → α) : Prop where
  notFinite : ∀ v, ¬ Finite v → print v ∈ notFiniteTexts
  number : ∀ v, Finite v → JsonText.isNumber (print v) = true
  negativeZero : ∀ v, print v = negativeZeroText ↔ v = negative
  zero : print (get (.integer 0)) = zeroText
  /-- The digits of a text survive its conversion. -/
  again : ∀ v, Finite v → v ≠ negative →
    ∃ n, stored fp (print v) = some n ∧ print (get n) = print v

structure Standard (fp : Floating) : Prop where
  float : Prints fp IsFinite negativeZero fp.printFloat fp.toFloat
  double : Prints fp IsFinite64 negativeZero64 fp.printDouble fp.toDouble

/-- A parser that takes JSON text in valid UTF-8, for the value it stands for, and no other. -/
def ParsesExactly (fp : Floating) (parse : Bytes → Except Exc Value) : Prop :=
  ∀ text value, parse text = .ok value ↔ JsonText.parse (representable fp) text = some value

theorem refused_of_notFinite {representable : Bytes → Bool} {text : Bytes}
    (among : text ∈ notFiniteTexts) : JsonText.Refused representable text := by
  simp only [notFiniteTexts, List.mem_cons, List.not_mem_nil, or_false] at among
  have texts : utf8 "nan" = [0x6e, 0x61, 0x6e] ∧ utf8 "-nan" = [0x2d, 0x6e, 0x61, 0x6e] ∧
      utf8 "inf" = [0x69, 0x6e, 0x66] ∧ utf8 "-inf" = [0x2d, 0x69, 0x6e, 0x66] := by decide
  obtain ⟨nan, minusNan, inf, minusInf⟩ := texts
  rw [nan, minusNan, inf, minusInf] at among
  rcases among with rfl | rfl | rfl | rfl
  all_goals
    refine ⟨⟨_, _, rfl, by decide, by decide⟩, ?_⟩
    intro fuel tail
    cases fuel with
    | zero => rw [JsonText.parseValue]
    | succ fuel =>
        simp [JsonText.parseValue, JsonText.skip, JsonText.isSpace, JsonText.quotationMark,
          JsonText.beginArray, JsonText.beginObject, JsonText.nullText, JsonText.trueText,
          JsonText.falseText, JsonText.scanNumber, JsonText.isNumberByte, JsonText.isNumber,
          JsonText.magnitude, JsonText.minus, JsonText.decimalPoint, Decimal.isDigit]

section Formats

variable {fp : Floating} {α : Type} {Finite : α → Prop} {negative : α} {print : α → Bytes}
  {get : Number → α}

theorem stored_negativeZero : stored fp negativeZeroText = some (.integer 0) := by
  have shape : negativeZeroText = JsonText.minus :: Decimal.digits 0 := by decide
  rw [shape, stored_negative fp (Nat.zero_le _)]
  rfl

theorem Prints.representable (prints : Prints fp Finite negative print get) {v : α}
    (finite : Finite v) : representable fp (print v) = true := by
  rw [Json.representable]
  by_cases minus : v = negative
  · rw [(prints.negativeZero v).mpr minus, stored_negativeZero]
    rfl
  · obtain ⟨n, kept, _⟩ := prints.again v finite minus
    rw [kept]
    rfl

theorem Prints.sound_iff (prints : Prints fp Finite negative print get) (v : α) :
    (Value.number (print v)).Sound (Json.representable fp) ↔ Finite v := by
  rw [Value.Sound]
  constructor
  · intro sound
    by_contra infinite
    have words : ∀ text ∈ notFiniteTexts, JsonText.isNumber text = false := by decide
    rw [words _ (prints.notFinite v infinite)] at sound
    cases sound.1
  · intro finite
    exact ⟨prints.number v finite, prints.representable finite⟩

theorem Prints.settled (prints : Prints fp Finite negative print get) (v : α) :
    (Value.number (print v)).Settled (Json.representable fp) := by
  by_cases finite : Finite v
  · exact JsonText.settled_of_sound _ ((prints.sound_iff v).mpr finite)
  · rw [Value.Settled]
    exact .inr (refused_of_notFinite (prints.notFinite v finite))

/-- A number that was read and printed again: the sign of zero is lost, nothing else is. -/
theorem Prints.print_reread (prints : Prints fp Finite negative print get) {v : α}
    (finite : Finite v) :
    ∃ n, stored fp (print v) = some n ∧
      print (get n) = if print v = negativeZeroText then zeroText else print v := by
  by_cases minus : v = negative
  · have text := (prints.negativeZero v).mpr minus
    refine ⟨.integer 0, by rw [text, stored_negativeZero], ?_⟩
    rw [if_pos text, prints.zero]
  · obtain ⟨n, kept, same⟩ := prints.again v finite minus
    refine ⟨n, kept, ?_⟩
    rw [if_neg (fun text => minus ((prints.negativeZero v).mp text)), same]

theorem Prints.reprint_sound (prints : Prints fp Finite negative print get) {v : α}
    (finite : Finite v) :
    ∃ n, stored fp (print v) = some n ∧
      (Value.number (print (get n))).Sound (Json.representable fp) ∧
      print (get n) ≠ negativeZeroText := by
  obtain ⟨n, kept, text⟩ := prints.print_reread finite
  have zero : (Value.number zeroText).Sound (Json.representable fp) := by
    have shape : zeroText = decimal 0 := by decide
    rw [shape]
    exact sound_decimal fp (by decide)
  refine ⟨n, kept, ?_⟩
  rw [text]
  split
  · exact ⟨zero, by decide⟩
  · next other => exact ⟨(prints.sound_iff v).mpr finite, other⟩

end Formats

def Lasting : (t : CxxType) → t.Value → Prop
  | .float, v => IsFinite v ∧ v ≠ negativeZero
  | .double, v => IsFinite64 v ∧ v ≠ negativeZero64
  | .string, v => Utf8.Valid v
  | _, _ => True

/-- Literals other than that of the negative zero. -/
def signless (literal : Bytes) : Bool := literal != negativeZeroText

theorem signless_signedDecimal (i : Int) : signless (signedDecimal i) = true := by
  have sign : utf8 "-" = [JsonText.minus] := by decide
  have shape : negativeZeroText = JsonText.minus :: Decimal.digits 0 := by decide
  have other : signedDecimal i ≠ negativeZeroText := by
    intro same
    rw [signedDecimal, shape, decimal_eq] at same
    split at same
    · next negative =>
      rw [sign, List.singleton_append] at same
      have digits := congrArg Decimal.value (List.cons.inj same).2
      rw [Decimal.value_digits, Decimal.value_digits] at digits
      omega
    · exact head_digits _ (by rw [same]; rfl)
  simpa [signless] using other

theorem signless_decimal (n : Nat) : signless (decimal n) = true := by
  have same : decimal n = signedDecimal n := by
    have natural : ¬ (n : Int) < 0 := by omega
    rw [signedDecimal, if_neg natural, Int.natAbs_natCast]
  rw [same]
  exact signless_signedDecimal n

section Leaves

variable {fp : Floating}

theorem signless_tree (fp : Floating) {t : CxxType} (exact : Exact t) (v : t.Value) :
    (tree fp t v).Sound signless := by
  have sound := tree_sound fp exact v
  cases t with
  | float => exact absurd rfl exact.1
  | double => exact absurd rfl exact.2
  | bool => trivial
  | string => trivial
  | uuid => trivial
  | bytes => trivial
  | int8 =>
      simp only [tree, Value.Sound] at sound ⊢
      exact ⟨sound.1, signless_signedDecimal _⟩
  | int16 =>
      simp only [tree, Value.Sound] at sound ⊢
      exact ⟨sound.1, signless_signedDecimal _⟩
  | int32 =>
      simp only [tree, Value.Sound] at sound ⊢
      exact ⟨sound.1, signless_signedDecimal _⟩
  | int64 =>
      simp only [tree, Value.Sound] at sound ⊢
      exact ⟨sound.1, signless_signedDecimal _⟩
  | uint8 =>
      simp only [tree, Value.Sound] at sound ⊢
      exact ⟨sound.1, signless_decimal _⟩
  | uint16 =>
      simp only [tree, Value.Sound] at sound ⊢
      exact ⟨sound.1, signless_decimal _⟩
  | uint32 =>
      simp only [tree, Value.Sound] at sound ⊢
      exact ⟨sound.1, signless_decimal _⟩
  | uint64 =>
      simp only [tree, Value.Sound] at sound ⊢
      exact ⟨sound.1, signless_decimal _⟩

theorem settled_tree (standard : Standard fp) (t : CxxType) (v : t.Value) :
    (tree fp t v).Settled (representable fp) := by
  by_cases exact : Exact t
  · exact JsonText.settled_of_sound _ (tree_sound fp exact v)
  · cases t with
    | float => exact standard.float.settled v
    | double => exact standard.double.settled v
    | _ => exact absurd ⟨by decide, by decide⟩ exact

theorem lasting_iff (standard : Standard fp) (t : CxxType) (v : t.Value) :
    ((tree fp t v).Sound (representable fp) ∧ (tree fp t v).Encoded) ∧
      (tree fp t v).Sound signless ↔ Lasting t v := by
  by_cases exact : Exact t
  · have sound := tree_sound fp exact v
    have plain := signless_tree fp exact v
    have encoded : (tree fp t v).Encoded ↔ Lasting t v := by
      cases t with
      | float => exact absurd rfl exact.1
      | double => exact absurd rfl exact.2
      | string => simp only [tree, Value.Encoded, Lasting]
      | _ => exact iff_of_true (tree_encoded fp trivial) trivial
    rw [and_iff_left plain, and_iff_right sound, encoded]
  · cases t with
    | float =>
        have finite := standard.float.sound_iff v
        have minus := standard.float.negativeZero v
        simp only [tree, Value.Encoded, Lasting, and_true, finite]
        simp only [Value.Sound, signless, bne_iff_ne, ne_eq, minus]
        constructor
        · rintro ⟨fits, _, other⟩
          exact ⟨fits, other⟩
        · rintro ⟨fits, other⟩
          exact ⟨fits, standard.float.number v fits, other⟩
    | double =>
        have finite := standard.double.sound_iff v
        have minus := standard.double.negativeZero v
        simp only [tree, Value.Encoded, Lasting, and_true, finite]
        simp only [Value.Sound, signless, bne_iff_ne, ne_eq, minus]
        constructor
        · rintro ⟨fits, _, other⟩
          exact ⟨fits, other⟩
        · rintro ⟨fits, other⟩
          exact ⟨fits, standard.double.number v fits, other⟩
    | _ => exact absurd ⟨by decide, by decide⟩ exact

theorem reads_sound : Reads fp fun t v => (tree fp t v).Sound (representable fp) := by
  intro t v context sound
  by_cases exact : Exact t
  · rw [parseValue_tree fp exact v context, rereadValue_exact fp exact v]
  · cases t with
    | float =>
        simp only [tree, Value.Sound, representable, Option.isSome_iff_exists] at sound
        obtain ⟨_, n, kept⟩ := sound
        simp only [parseValue, parseFloating, number, tree, kept, rereadValue, Option.map_some,
          Option.getD_some]
    | double =>
        simp only [tree, Value.Sound, representable, Option.isSome_iff_exists] at sound
        obtain ⟨_, n, kept⟩ := sound
        simp only [parseValue, parseFloating, number, tree, kept, rereadValue, Option.map_some,
          Option.getD_some]
    | _ => exact absurd ⟨by decide, by decide⟩ exact

/-- Prints a number as it is printed once it was read from its text. -/
def reprinted (fp : Floating) : Floating :=
  { fp with
    printFloat := fun v => fp.printFloat (rereadValue fp .float v)
    printDouble := fun v => fp.printDouble (rereadValue fp .double v) }

theorem emitValue_reprinted (t : CxxType) (v : t.Value) (out : Bytes) :
    emitValue fp t (rereadValue fp t v) out = emitValue (reprinted fp) t v out := by
  cases t with
  | _ => rfl

theorem tree_exact {t : CxxType} (exact : Exact t) (v : t.Value) :
    tree (reprinted fp) t v = tree fp t v := by
  cases t with
  | float => exact absurd rfl exact.1
  | double => exact absurd rfl exact.2
  | _ => rfl

theorem sound_reprinted (standard : Standard fp) {t : CxxType} {v : t.Value}
    (sound : (tree fp t v).Sound (representable fp)) :
    (tree (reprinted fp) t v).Sound (representable fp) ∧
      (tree (reprinted fp) t v).Sound signless := by
  by_cases exact : Exact t
  · rw [tree_exact exact]
    exact ⟨sound, signless_tree fp exact v⟩
  · cases t with
    | float =>
        obtain ⟨n, kept, whole, other⟩ :=
          standard.float.reprint_sound ((standard.float.sound_iff v).mp sound)
        simp only [tree, reprinted, rereadValue, kept, Option.map_some, Option.getD_some]
        refine ⟨whole, ?_⟩
        simp only [Value.Sound] at whole ⊢
        exact ⟨whole.1, by simpa [signless] using other⟩
    | double =>
        obtain ⟨n, kept, whole, other⟩ :=
          standard.double.reprint_sound ((standard.double.sound_iff v).mp sound)
        simp only [tree, reprinted, rereadValue, kept, Option.map_some, Option.getD_some]
        refine ⟨whole, ?_⟩
        simp only [Value.Sound] at whole ⊢
        exact ⟨whole.1, by simpa [signless] using other⟩
    | _ => exact absurd ⟨by decide, by decide⟩ exact

theorem emitValue_lasting (standard : Standard fp) {t : CxxType} {v : t.Value}
    (lasting : Lasting t v) (out : Bytes) :
    emitValue fp t (rereadValue fp t v) out = emitValue fp t v out := by
  by_cases exact : Exact t
  · rw [rereadValue_exact fp exact]
  · cases t with
    | float =>
        obtain ⟨n, kept, same⟩ := standard.float.again v lasting.1 lasting.2
        simp only [emitValue, rereadValue, kept, Option.map_some, Option.getD_some, same]
    | double =>
        obtain ⟨n, kept, same⟩ := standard.double.again v lasting.1 lasting.2
        simp only [emitValue, rereadValue, kept, Option.map_some, Option.getD_some, same]
    | _ => exact absurd ⟨by decide, by decide⟩ exact

end Leaves

section Objects

variable {fp fp' : Floating} {leaf : (t : CxxType) → t.Value → Prop}

theorem Variants.serialize_past (fp : Floating) (vs : Variants) {ordinal index : Nat}
    (past : ordinal < index) (v : vs.Impl) (state : Bytes × Bool) :
    Variants.serialize fp vs ordinal index v state = state := by
  cases vs with
  | nil => simp only [Variants.serialize]
  | cons _ elem rest =>
      simp only [Variants.serialize, if_neg (by omega : ordinal ≠ index)]
      exact Variants.serialize_past fp rest (by omega) v.2 state

/-- `fp'` prints a value as `fp` prints it once it was read. -/
def PrintsAlike (fp fp' : Floating) (leaf : (t : CxxType) → t.Value → Prop) : Prop :=
  ∀ t v out, leaf t v → emitValue fp t (rereadValue fp t v) out = emitValue fp' t v out

mutual
theorem Elem.serialize_readBack (alike : PrintsAlike fp fp' leaf) : (e : Elem) → (v d : e.Impl) →
    Elem.Shows leaf Named e v → e.IsFresh d → (out : Bytes) →
    Elem.serialize fp e (Elem.readBack fp e v d) out = Elem.serialize fp' e v out
  | .prim t, v, _, shown, _, out => by
      simp only [Elem.Shows, Elem.serialize, Elem.readBack] at shown ⊢
      exact alike t v out shown
  | .enum _ _, v, _, shown, _, out => by
      simp only [Elem.Shows, Elem.serialize, Elem.readBack] at shown ⊢
      rw [toName_namesake shown]
  | .cls _ body, v, d, shown, fresh, out => by
      simp only [Elem.Shows, Elem.IsFresh, Elem.serialize, Elem.readBack] at shown fresh ⊢
      rw [Members.serializeFields_readBack alike body v d shown fresh]

theorem Members.serializeFields_readBack (alike : PrintsAlike fp fp' leaf) : (ms : Members) →
    (v d : ms.Impl) → Members.Shows leaf Named ms v → ms.IsFresh d → (state : Bytes × Bool) →
    Members.serializeFields fp ms (Members.readBack fp ms v d) state =
      Members.serializeFields fp' ms v state
  | .nil, _, _, _, _, _ => by simp only [Members.serializeFields]
  | .base _ body rest, v, d, shown, fresh, state => by
      simp only [Members.Shows, Members.IsFresh, Members.serializeFields, Members.readBack]
        at shown fresh ⊢
      rw [Members.serializeFields_readBack alike body v.1 d.1 shown.1 fresh.1,
        Members.serializeFields_readBack alike rest v.2 d.2 shown.2 fresh.2]
  | .choice variants rest, v, d, shown, fresh, state => by
      simp only [Members.Shows, Members.IsFresh, Members.serializeFields, Members.readBack]
        at shown fresh ⊢
      have chosen := (Variants.serialize_readBack alike variants v.1.ordinal.toNat 1 v.1.store d.1
        v.1.ordinal.toNat_lt (by decide) shown.1 fresh.1 fresh.2.1 state).2
      rw [chosen, Members.serializeFields_readBack alike rest v.2 d.2 shown.2 fresh.2.2]
  | .required _ elem rest, v, d, shown, fresh, state => by
      simp only [Members.Shows, Members.IsFresh, Members.serializeFields, Members.readBack]
        at shown fresh ⊢
      rw [Elem.serialize_readBack alike elem v.1 d.1 shown.1 fresh.1,
        Members.serializeFields_readBack alike rest v.2 d.2 shown.2 fresh.2]
  | .optional _ elem rest, v, d, shown, fresh, state => by
      simp only [Members.Shows, Members.IsFresh, Members.serializeFields, Members.readBack]
        at shown fresh ⊢
      rw [Members.serializeFields_readBack alike rest v.2 d.2 shown.2 fresh.2.2]
      by_cases present : v.1.has = true
      · have inner := Elem.serialize_readBack alike elem v.1.value d.1.value (shown.1 present)
          fresh.2.1
        simp only [if_pos present, if_true, inner]
      · simp only [if_neg present, Bool.false_eq_true, if_false]
  | .list _ _ elem rest, v, d, shown, fresh, state => by
      simp only [Members.Shows, Members.IsFresh, Members.serializeFields, Members.readBack]
        at shown fresh ⊢
      have pairs : List.Forall₂
          (fun x y => ∀ out, Elem.serialize fp elem x out = Elem.serialize fp' elem y out)
          (v.1.map fun item =>
            elem.copy elem.fresh (Elem.readBack fp elem item elem.fresh)).items v.1.items := by
        rw [AccessorList.map, List.forall₂_map_left_iff, List.forall₂_same]
        intro item member out
        rw [Elem.serialize_agrees fp elem (elem.copy_agrees _ _)]
        exact Elem.serialize_readBack alike elem item elem.fresh (shown.1 item member)
          elem.fresh_isFresh out
      rw [emitItems_agrees (fun _ _ same => same) pairs,
        Members.serializeFields_readBack alike rest v.2 d.2 shown.2 fresh.2]

theorem Variants.serialize_readBack (alike : PrintsAlike fp fp' leaf) : (vs : Variants) →
    (ordinal index : Nat) → (v : vs.Impl) → (slot : ChoiceSlot vs.Impl) → ordinal < 2 ^ 32 →
    0 < index → Variants.Shows leaf Named vs ordinal index v → slot.ordinal = 0 →
    vs.IsFresh slot.store → (state : Bytes × Bool) →
    ((Variants.readBack fp vs ordinal index v slot).ordinal = 0 ∨
        index ≤ (Variants.readBack fp vs ordinal index v slot).ordinal.toNat) ∧
      Variants.serialize fp vs (Variants.readBack fp vs ordinal index v slot).ordinal.toNat index
        (Variants.readBack fp vs ordinal index v slot).store state =
          Variants.serialize fp' vs ordinal index v state
  | .nil, _, _, _, _, _, _, _, none', _, _ => by
      simp only [Variants.readBack, Variants.serialize]
      exact ⟨.inl none', trivial⟩
  | .cons _ elem rest, ordinal, index, v, slot, small, positive, shown, none', fresh, state => by
      simp only [Variants.Shows, Variants.IsFresh] at shown fresh
      by_cases here : ordinal = index
      · have same : (UInt32.ofNat index).toNat = index := by
          rw [UInt32.toNat_ofNat', Nat.mod_eq_of_lt (here ▸ small)]
        have inner := Elem.serialize_readBack alike elem v.1 slot.store.1 (shown.1 here) fresh.1
        simp only [Variants.readBack, if_pos here, Variants.serialize, same, if_true, inner]
        refine ⟨.inr (Nat.le_refl _), ?_⟩
        rw [Variants.serialize_past fp rest (by omega), Variants.serialize_past fp' rest (by omega)]
      · obtain ⟨ordinals, later⟩ := Variants.serialize_readBack alike rest ordinal (index + 1) v.2
          ⟨slot.ordinal, slot.store.2⟩ small (Nat.succ_pos index) shown.2 none' fresh.2 state
        have apart : (Variants.readBack fp rest ordinal (index + 1) v.2
            ⟨slot.ordinal, slot.store.2⟩).ordinal.toNat ≠ index := by
          cases ordinals with
          | inl zero =>
              rw [zero]
              exact Nat.ne_of_lt positive
          | inr beyond => omega
        simp only [Variants.readBack, if_neg here, Variants.serialize, if_neg apart]
        exact ⟨ordinals.imp id fun beyond => by omega, later⟩
end

variable {parse : Bytes → Except Exc Value} {e : Elem}

theorem compositional_true : Compositional fun _ => True where
  array := by simp
  object := by simp

theorem settled_object (standard : Standard fp) (v : e.Impl) :
    (Elem.tree fp e v).Settled (representable fp) := by
  have everything := (Elem.holds_tree_iff fp compositional_true e v).mp trivial
  exact (Elem.holds_tree_iff fp (compositional_settled _) e v).mpr
    (everything.mono (fun t v _ => settled_tree standard t v) fun _ _ _ => trivial)

theorem serialize_render (fp : Floating) (keyed : Elem.Keyed e) (v : e.Impl) :
    Elem.serialize fp e v [] = render (Elem.tree fp e v) := by
  rw [Elem.serialize_eq fp e keyed v, List.nil_append]

theorem reads_lasting (standard : Standard fp) : Reads fp Lasting := by
  intro t v context lasting
  exact reads_sound t v context ((lasting_iff standard t v).mpr lasting).1.1

theorem signless_of_unchanged (standard : Standard fp) (v : e.Impl)
    (sound : (Elem.tree fp e v).Sound (representable fp))
    (same : render (Elem.tree (reprinted fp) e v) = render (Elem.tree fp e v)) :
    (Elem.tree fp e v).Sound signless := by
  have leaves := (Elem.holds_tree_iff fp (compositional_sound _) e v).mp sound
  have both := (Elem.holds_tree_iff (reprinted fp)
    ((compositional_sound (representable fp)).and (compositional_sound signless)) e v).mpr
      (leaves.mono (fun _ _ => sound_reprinted standard) fun _ _ _ => ⟨trivial, trivial⟩)
  rw [← JsonText.render_injective both.1 sound same]
  exact both.2

/-- An object's text is read into a new object that is written the same way, exactly when
everything the object shows is lasting. -/
theorem Elem.rewritten_alike_iff [CaseTable] (standard : Standard fp)
    (exactly : ParsesExactly fp parse)
    (keyed : Elem.Keyed e) (v : e.Impl) :
    (∃ doc got, parse (Elem.serialize fp e v []) = .ok doc ∧
      Elem.deserialize fp [] e doc e.fresh = .ok () got ∧
      Elem.serialize fp e got [] = Elem.serialize fp e v []) ↔
    Elem.Shows Lasting Named e v := by
  have taken : ∀ doc, parse (Elem.serialize fp e v []) = .ok doc ↔
      (Elem.tree fp e v).Sound (representable fp) ∧ (Elem.tree fp e v).Encoded ∧
        doc = Elem.tree fp e v := by
    intro doc
    rw [exactly, serialize_render fp keyed,
      JsonText.parse_render_eq_some_iff (settled_object standard v)]
  constructor
  · rintro ⟨doc, got, parsed, run, same⟩
    obtain ⟨sound, encoded, rfl⟩ := (taken doc).mp parsed
    have leaves : Elem.Shows (fun t v => (Json.tree fp t v).Sound (representable fp))
        (fun _ _ => True) e v :=
      ((Elem.holds_tree_iff fp (compositional_sound _) e v).mp sound).mono (fun _ _ fine => fine)
        fun _ _ _ => trivial
    obtain ⟨named, rfl⟩ :=
      (Elem.deserialize_tree_iff reads_sound e keyed v leaves e.fresh got []).mp run
    rw [Elem.serialize_readBack (fun t v out _ => emitValue_reprinted t v out) e v e.fresh named
      e.fresh_isFresh, serialize_render _ keyed, serialize_render _ keyed] at same
    have signs := signless_of_unchanged standard v sound same
    have lasting : Elem.Shows Lasting (fun _ _ => True) e v :=
      ((Elem.holds_tree_iff fp (((compositional_sound (representable fp)).and
        compositional_encoded).and (compositional_sound signless)) e v).mp
          ⟨⟨sound, encoded⟩, signs⟩).mono (fun t v => (lasting_iff standard t v).mp)
            fun _ _ _ => trivial
    exact ((Elem.deserialize_tree_iff (reads_lasting standard) e keyed v lasting e.fresh _ []).mp
      run).1
  · intro shown
    have fine : (Elem.tree fp e v).Sound (representable fp) ∧ (Elem.tree fp e v).Encoded :=
      (Elem.holds_tree_iff fp ((compositional_sound _).and compositional_encoded) e v).mpr
        (shown.mono (fun t v lasting => ((lasting_iff standard t v).mpr lasting).1)
          fun _ _ _ => ⟨trivial, by simpa only [Value.Encoded] using valid_toName⟩)
    have run := (Elem.deserialize_tree_iff (reads_lasting standard) e keyed v
      (shown.mono (fun _ _ lasting => lasting) fun _ _ _ => trivial) e.fresh _ []).mpr ⟨shown, rfl⟩
    exact ⟨_, _, (taken _).mpr ⟨fine.1, fine.2, rfl⟩, run,
      Elem.serialize_readBack (fun _ _ out lasting => emitValue_lasting standard lasting out) e v
        e.fresh shown e.fresh_isFresh []⟩

end Objects

section Sample

/-- A number by its bit pattern: not what the C library prints, but with all it promises here. -/
def printBits (finite negative : Bool) (bits : ℕ) : Bytes :=
  if !finite then utf8 "nan" else if negative then negativeZeroText else decimal bits

def plainFloating : Floating where
  printFloat v := printBits (decide (IsFinite v)) (v == negativeZero) v.toNat
  printDouble v := printBits (decide (IsFinite64 v)) (v == negativeZero64) v.toNat
  strtod _ := none
  toFloat
    | .unsigned n => n.toUInt32
    | _ => 0
  toDouble
    | .unsigned n => n
    | _ => 0

theorem printBits_eq_negativeZero_iff {finite negative : Bool} {bits : ℕ} :
    printBits finite negative bits = negativeZeroText ↔ finite = true ∧ negative = true := by
  have other : utf8 "nan" ≠ negativeZeroText := by decide
  have plain : decimal bits ≠ negativeZeroText := by
    simpa [signless] using signless_decimal bits
  cases finite with
  | false => simp [printBits, other]
  | true =>
      cases negative with
      | false => simp [printBits, plain]
      | true => simp [printBits]

theorem isNumber_printBits (negative : Bool) (bits : ℕ) :
    JsonText.isNumber (printBits true negative bits) = true := by
  cases negative with
  | true =>
      change JsonText.isNumber negativeZeroText = true
      decide
  | false =>
      change JsonText.isNumber (decimal bits) = true
      rw [decimal_eq]
      exact JsonText.isNumber_of_magnitude (JsonText.magnitude_digits bits)

theorem prints_printBits (fp : Floating) {α : Type} [DecidableEq α] {Finite : α → Prop}
    [DecidablePred Finite] {negative : α} {toNat : α → ℕ} {get : Number → α}
    (fits : ∀ v, toNat v < 2 ^ 64) (finite : Finite negative)
    (zero : printBits (decide (Finite (get (.integer 0)))) (get (.integer 0) == negative)
      (toNat (get (.integer 0))) = zeroText)
    (back : ∀ v, get (.unsigned (UInt64.ofNat (toNat v))) = v) :
    Prints fp Finite negative (fun v => printBits (decide (Finite v)) (v == negative) (toNat v))
      get where
  notFinite := by
    intro v infinite
    simp [printBits, infinite, notFiniteTexts]
  number := by
    intro v fine
    simp only [fine, decide_true]
    exact isNumber_printBits _ _
  negativeZero := by
    intro v
    simp only [printBits_eq_negativeZero_iff, decide_eq_true_eq, beq_iff_eq]
    constructor
    · exact And.right
    · rintro rfl
      exact ⟨finite, rfl⟩
  zero := zero
  again := by
    intro v fine other
    have text : printBits (decide (Finite v)) (v == negative) (toNat v) = decimal (toNat v) := by
      simp [printBits, fine, other]
    exact ⟨.unsigned (UInt64.ofNat (toNat v)), by rw [text, stored_decimal fp (fits v)],
      by rw [back v]⟩

theorem plainFloating_standard : Standard plainFloating where
  float := prints_printBits _ (fun v => Nat.lt_trans v.toNat_lt (by decide)) (by decide)
    (by decide) (by simp [plainFloating])
  double := prints_printBits _ UInt64.toNat_lt (by decide) (by decide) (by simp [plainFloating])

theorem speedTrack_lasting : Elem.Shows Lasting Named trackLayout speedTrack := by
  have label : Utf8.Valid (utf8 "hdr") := valid_utf8 "hdr"
  have speed : IsFinite64 0x3ff8000000000000 ∧
      (0x3ff8000000000000 : UInt64) ≠ negativeZero64 := by decide
  simp [trackLayout, headerMembers, speedTrack, Elem.Shows, Members.Shows, Variants.Shows,
    Lasting, label, speed, Named, Declared]

def exactParse (fp : Floating) (text : Bytes) : Except Exc Value :=
  match JsonText.parse (representable fp) text with
  | some value => .ok value
  | none => .error (.jsonException [])

theorem exactParse_exactly (fp : Floating) : ParsesExactly fp (exactParse fp) := by
  intro text value
  rw [exactParse]
  cases JsonText.parse (representable fp) text with
  | some found => simp
  | none => simp

end Sample

end Arcal.Json
