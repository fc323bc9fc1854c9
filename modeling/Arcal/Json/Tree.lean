import Arcal.Json.Codec

/-! What the handlers write, as a JSON value: the text of an object is the rendering of
its tree. The extension chain and the chosen variant lie flat in one object. -/

namespace Arcal.Json

open Schema
open JsonText (Value render renderItems renderMembers separated continued)

variable (fp : Floating)

mutual
def Elem.tree : (e : Elem) → e.Impl → Value
  | .prim t, v => Json.tree fp t v
  | .enum _ enumValues, v => .string (toName enumValues v)
  | .cls _ body, v => .object (Members.pairs body v)

def Members.pairs : (ms : Members) → ms.Impl → List (Bytes × Value)
  | .nil, _ => []
  | .base _ body rest, v => Members.pairs body v.1 ++ Members.pairs rest v.2
  | .choice variants rest, v =>
      Variants.pairs variants v.1.ordinal.toNat 1 v.1.store ++ Members.pairs rest v.2
  | .required name elem rest, v => (utf8 name, Elem.tree elem v.1) :: Members.pairs rest v.2
  | .optional name elem rest, v =>
      (if v.1.has then [(utf8 name, Elem.tree elem v.1.value)] else []) ++
        Members.pairs rest v.2
  | .list name _ elem rest, v =>
      (utf8 name, .array (v.1.items.map fun item => Elem.tree elem item)) ::
        Members.pairs rest v.2

def Variants.pairs : (vs : Variants) → (ordinal index : Nat) → vs.Impl → List (Bytes × Value)
  | .nil, _, _, _ => []
  | .cons name elem rest, ordinal, index, v =>
      (if ordinal = index then [(utf8 name, Elem.tree elem v.1)] else []) ++
        Variants.pairs rest ordinal (index + 1) v.2
end

/-- A name that needs no escapes. -/
def Plain (name : String) : Prop := ∀ c ∈ utf8 name, ¬ c < 0x20 ∧ c ≠ 0x22 ∧ c ≠ 0x5c

instance (name : String) : Decidable (Plain name) :=
  inferInstanceAs (Decidable (∀ c ∈ utf8 name, ¬ c < 0x20 ∧ c ≠ 0x22 ∧ c ≠ 0x5c))

mutual
def Members.keys : Members → List String
  | .nil => []
  | .base _ body rest => Members.keys body ++ Members.keys rest
  | .choice variants rest => Variants.keys variants ++ Members.keys rest
  | .required name _ rest => name :: Members.keys rest
  | .optional name _ rest => name :: Members.keys rest
  | .list name _ _ rest => name :: Members.keys rest

def Variants.keys : Variants → List String
  | .nil => []
  | .cons name _ rest => name :: Variants.keys rest
end

mutual
/-- In every object the names are plain and differ from each other. -/
def Elem.Keyed : Elem → Prop
  | .cls _ body => (Members.keys body).Nodup ∧ Members.Keyed body
  | _ => True

def Members.Keyed : Members → Prop
  | .nil => True
  | .base _ body rest => Members.Keyed body ∧ Members.Keyed rest
  | .choice variants rest => Variants.Keyed variants ∧ Members.Keyed rest
  | .required name elem rest => Plain name ∧ Elem.Keyed elem ∧ Members.Keyed rest
  | .optional name elem rest => Plain name ∧ Elem.Keyed elem ∧ Members.Keyed rest
  | .list name _ elem rest => Plain name ∧ Elem.Keyed elem ∧ Members.Keyed rest

def Variants.Keyed : Variants → Prop
  | .nil => True
  | .cons name elem rest => Plain name ∧ Elem.Keyed elem ∧ Variants.Keyed rest
end

def joined (first : Bool) (pieces : List Bytes) : Bytes :=
  if first then separated pieces else continued pieces

theorem continued_append (left right : List Bytes) :
    continued (left ++ right) = continued left ++ continued right := List.flatMap_append

theorem joined_append (first : Bool) (left right : List Bytes) :
    joined first (left ++ right) = joined first left ++ joined (first && left.isEmpty) right := by
  cases first with
  | false => exact continued_append left right
  | true =>
      cases left with
      | nil => rfl
      | cons piece rest =>
          simp only [joined, List.cons_append, separated, continued_append, List.isEmpty_cons,
            Bool.and_false, if_true, Bool.false_eq_true, if_false, List.append_assoc]

theorem renderMembers_append (left right : List (Bytes × Value)) :
    renderMembers (left ++ right) = renderMembers left ++ renderMembers right := by
  induction left with
  | nil => rfl
  | cons member rest ih =>
      rcases member with ⟨key, value⟩
      rw [List.cons_append, renderMembers, renderMembers, ih, List.cons_append]

theorem renderMembers_isEmpty (members : List (Bytes × Value)) :
    (renderMembers members).isEmpty = members.isEmpty := by
  cases members with
  | nil => rfl
  | cons member rest => rfl

theorem quote_plain {name : String} (plain : Plain name) :
    JsonText.quote (utf8 name) = utf8 "\"" ++ utf8 name ++ utf8 "\"" := by
  have mark : utf8 "\"" = [JsonText.quotationMark] := by decide
  have same : ∀ text : Bytes, (∀ c ∈ text, ¬ c < 0x20 ∧ c ≠ 0x22 ∧ c ≠ 0x5c) →
      text.flatMap JsonText.escapeByte = text := by
    intro text
    induction text with
    | nil => exact fun _ => rfl
    | cons c rest ih =>
        intro clean
        have here := clean c (by simp)
        have alone : JsonText.escapeByte c = [c] := by
          have short : ¬ (c = 0x08 ∨ c = 0x0c ∨ c = 0x0a ∨ c = 0x0d ∨ c = 0x09) := by
            intro control
            apply here.1
            rcases control with rfl | rfl | rfl | rfl | rfl <;> decide
          simp only [not_or] at short
          rw [← emitByte_eq]
          simp [emitByte, here.1, here.2.1, here.2.2, short]
        rw [List.flatMap_cons, alone, ih fun other member => clean other
          (List.mem_cons_of_mem _ member)]
        rfl
  rw [JsonText.quote, same _ plain, mark]
  rfl

theorem emit_member {name : String} (plain : Plain name) (value : Value) (out : Bytes)
    (first : Bool) :
    (emitKey (utf8 name) out first).1 ++ render value =
      out ++ joined first (renderMembers [(utf8 name, value)]) := by
  have separator : utf8 "," = [JsonText.comma] := by decide
  have mark : utf8 "\":" = utf8 "\"" ++ [JsonText.colon] := by decide
  cases first with
  | true =>
      simp [emitKey, joined, separated, continued, renderMembers, quote_plain plain, mark]
  | false =>
      simp [emitKey, joined, continued, renderMembers, quote_plain plain, mark, separator]

theorem emitKey_snd (name out : Bytes) (first : Bool) : (emitKey name out first).2 = false := rfl

section Items

variable {α : Type} {emit : α → Bytes → Bytes} {toValue : α → Value}

theorem foldl_items (each : ∀ item out, emit item out = out ++ render (toValue item))
    (items : List α) (out : Bytes) (first : Bool) :
    (items.foldl (fun (state : Bytes × Bool) item =>
        (emit item (if state.2 then state.1 else state.1 ++ utf8 ","), false)) (out, first)).1 =
      out ++ joined first (renderItems (items.map toValue)) := by
  have separator : utf8 "," = [JsonText.comma] := by decide
  induction items generalizing out first with
  | nil =>
      cases first with
      | true => simp [joined, separated, renderItems]
      | false => simp [joined, continued, renderItems]
  | cons item rest ih =>
      rw [List.foldl_cons, ih, each, List.map_cons, renderItems]
      cases first with
      | true => simp [joined, separated]
      | false => simp [joined, continued, separator]

theorem emitItems_eq (each : ∀ item out, emit item out = out ++ render (toValue item))
    (items : List α) (out : Bytes) :
    emitItems emit items out = out ++ render (.array (items.map toValue)) := by
  have opening : utf8 "[" = [JsonText.beginArray] := by decide
  have closing : utf8 "]" = [JsonText.endArray] := by decide
  have pieces := foldl_items each items (out ++ utf8 "[") true
  simp only [emitItems]
  rw [pieces, opening, closing, render]
  simp [joined]

end Items

/-- A run of the field writer: what it appends and what is left of the flag. -/
def Writes (state : Bytes × Bool) (members : List (Bytes × Value)) : Bytes × Bool :=
  (state.1 ++ joined state.2 (renderMembers members), state.2 && members.isEmpty)

theorem writes_append (state : Bytes × Bool) (left right : List (Bytes × Value)) :
    Writes (Writes state left) right = Writes state (left ++ right) := by
  have flag : (state.2 && (left ++ right).isEmpty) = (state.2 && left.isEmpty && right.isEmpty) := by
    cases left with
    | nil => simp
    | cons member rest => simp
  simp only [Writes, renderMembers_append, joined_append, renderMembers_isEmpty, flag,
    List.append_assoc]

theorem writes_nil (state : Bytes × Bool) : Writes state [] = state := by
  rcases state with ⟨out, first⟩
  cases first with
  | true => simp [Writes, joined, separated, renderMembers]
  | false => simp [Writes, joined, continued, renderMembers]

theorem writes_one {name : String} (plain : Plain name) (value : Value) (state : Bytes × Bool) :
    ((emitKey (utf8 name) state.1 state.2).1 ++ render value,
      (emitKey (utf8 name) state.1 state.2).2) = Writes state [(utf8 name, value)] := by
  rw [emit_member plain, emitKey_snd, Writes, List.isEmpty_cons, Bool.and_false]

mutual
theorem Elem.serialize_eq : (e : Elem) → Elem.Keyed e → (v : e.Impl) → (out : Bytes) →
    Elem.serialize fp e v out = out ++ render (Elem.tree fp e v)
  | .prim t, _, v, out => by
      simp only [Elem.serialize, Elem.tree]
      exact emitValue_eq fp t v out
  | .enum _ enumValues, _, v, out => by
      simp only [Elem.serialize, Elem.tree, render]
      exact emitString_eq _ out
  | .cls _ body, keyed, v, out => by
      have opening : utf8 "\x7b" = [JsonText.beginObject] := by decide
      have closing : utf8 "\x7d" = [JsonText.endObject] := by decide
      simp only [Elem.Keyed] at keyed
      simp only [Elem.serialize, Elem.tree, render]
      rw [Members.serializeFields_eq body keyed.2 v]
      simp [Writes, joined, opening, closing]

theorem Members.serializeFields_eq : (ms : Members) → Members.Keyed ms → (v : ms.Impl) →
    (state : Bytes × Bool) →
    Members.serializeFields fp ms v state = Writes state (Members.pairs fp ms v)
  | .nil, _, _, state => by
      simp only [Members.serializeFields, Members.pairs]
      exact (writes_nil state).symm
  | .base _ body rest, keyed, v, state => by
      simp only [Members.Keyed] at keyed
      simp only [Members.serializeFields, Members.pairs]
      rw [Members.serializeFields_eq body keyed.1, Members.serializeFields_eq rest keyed.2,
        writes_append]
  | .choice variants rest, keyed, v, state => by
      simp only [Members.Keyed] at keyed
      simp only [Members.serializeFields, Members.pairs]
      rw [Variants.serialize_eq variants keyed.1, Members.serializeFields_eq rest keyed.2,
        writes_append]
  | .required name elem rest, keyed, v, state => by
      simp only [Members.Keyed] at keyed
      simp only [Members.serializeFields, Members.pairs]
      rw [Elem.serialize_eq elem keyed.2.1, writes_one keyed.1,
        Members.serializeFields_eq rest keyed.2.2, writes_append, List.singleton_append]
  | .optional name elem rest, keyed, v, state => by
      simp only [Members.Keyed] at keyed
      simp only [Members.serializeFields, Members.pairs]
      cases present : v.1.has with
      | true =>
          simp only [if_true]
          rw [Elem.serialize_eq elem keyed.2.1, writes_one keyed.1,
            Members.serializeFields_eq rest keyed.2.2, writes_append]
      | false =>
          simp only [Bool.false_eq_true, if_false, List.nil_append]
          exact Members.serializeFields_eq rest keyed.2.2 v.2 state
  | .list name _ elem rest, keyed, v, state => by
      simp only [Members.Keyed] at keyed
      simp only [Members.serializeFields, Members.pairs]
      rw [emitItems_eq (fun item out => Elem.serialize_eq elem keyed.2.1 item out),
        writes_one keyed.1, Members.serializeFields_eq rest keyed.2.2, writes_append,
        List.singleton_append]

theorem Variants.serialize_eq : (vs : Variants) → Variants.Keyed vs → (ordinal index : Nat) →
    (v : vs.Impl) → (state : Bytes × Bool) →
    Variants.serialize fp vs ordinal index v state =
      Writes state (Variants.pairs fp vs ordinal index v)
  | .nil, _, _, _, _, state => by
      simp only [Variants.serialize, Variants.pairs]
      exact (writes_nil state).symm
  | .cons name elem rest, keyed, ordinal, index, v, state => by
      simp only [Variants.Keyed] at keyed
      simp only [Variants.serialize, Variants.pairs]
      by_cases here : ordinal = index
      · simp only [if_pos here]
        rw [Elem.serialize_eq elem keyed.2.1, writes_one keyed.1,
          Variants.serialize_eq rest keyed.2.2, writes_append]
      · simp only [if_neg here, List.nil_append]
        exact Variants.serialize_eq rest keyed.2.2 ordinal (index + 1) v.2 state
end

end Arcal.Json
