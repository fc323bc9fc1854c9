import Arcal.Cdr.Blank
import Arcal.Json.Reprint
import Arcal.Lib.JsonNesting

/-! What a write does with the content its container already has. The string overload of the
CDR externalizer replaces it; the other two append to it, and what is read back then begins with
what was there before. -/

namespace Arcal

open Schema

namespace Json

open JsonText (Value Closed render)

/-- What a text can hold at all. -/
def Printable : (t : CxxType) → t.Value → Prop
  | .float, v => IsFinite v
  | .double, v => IsFinite64 v
  | .string, v => Utf8.Valid v
  | _, _ => True

section Leaves

variable {fp : Floating}

theorem printable_iff (standard : Standard fp) (t : CxxType) (v : t.Value) :
    (tree fp t v).Sound (representable fp) ∧ (tree fp t v).Encoded ↔ Printable t v := by
  by_cases exact : Exact t
  · have sound := tree_sound fp exact v
    rw [and_iff_right sound]
    cases t with
    | float => exact absurd rfl exact.1
    | double => exact absurd rfl exact.2
    | string => simp only [tree, Value.Encoded, Printable]
    | _ => exact iff_of_true (tree_encoded fp trivial) trivial
  · cases t with
    | float =>
        have finite := standard.float.sound_iff v
        simpa only [tree, Value.Encoded, Printable, and_true] using finite
    | double =>
        have finite := standard.double.sound_iff v
        simpa only [tree, Value.Encoded, Printable, and_true] using finite
    | _ => exact absurd ⟨by decide, by decide⟩ exact

theorem plain_of_sound {literal : Bytes} {representable : Bytes → Bool}
    (sound : (Value.number literal).Sound representable) : (Value.number literal).Plain := by
  simp only [Value.Sound, Value.Plain] at sound ⊢
  intro c inside
  exact JsonText.isPlain_isNumberByte (JsonText.isNumber_bytes sound.1 inside)

theorem Prints.plain {α : Type} {Finite : α → Prop} {negative : α} {print : α → Bytes}
    {get : Number → α} (prints : Prints fp Finite negative print get) (v : α) :
    (Value.number (print v)).Plain := by
  by_cases finite : Finite v
  · exact plain_of_sound ((prints.sound_iff v).mpr finite)
  · have words : ∀ text ∈ notFiniteTexts, text.all JsonText.isPlain = true := by decide
    simp only [Value.Plain]
    exact List.all_eq_true.mp (words _ (prints.notFinite v finite))

theorem plain_tree (standard : Standard fp) (t : CxxType) (v : t.Value) :
    (tree fp t v).Plain := by
  by_cases exact : Exact t
  · have sound := tree_sound fp exact v
    cases t with
    | float => exact absurd rfl exact.1
    | double => exact absurd rfl exact.2
    | bool => simp only [tree, Value.Plain]
    | string => simp only [tree, Value.Plain]
    | uuid => simp only [tree, Value.Plain]
    | bytes => simp only [tree, Value.Plain]
    | _ => exact plain_of_sound sound
  · cases t with
    | float => exact standard.float.plain v
    | double => exact standard.double.plain v
    | _ => exact absurd ⟨by decide, by decide⟩ exact

end Leaves

theorem plainItems_iff {items : List Value} :
    JsonText.PlainItems items ↔ ∀ item ∈ items, item.Plain := by
  induction items with
  | nil => simp [JsonText.PlainItems]
  | cons item rest ih => rw [JsonText.PlainItems, ih, List.forall_mem_cons]

theorem plainMembers_iff {members : List (Bytes × Value)} :
    JsonText.PlainMembers members ↔ ∀ member ∈ members, member.2.Plain := by
  induction members with
  | nil => simp [JsonText.PlainMembers]
  | cons member rest ih => rw [JsonText.PlainMembers, ih, List.forall_mem_cons]

theorem compositional_plain : Compositional Value.Plain where
  array := by
    intro items
    rw [Value.Plain, plainItems_iff]
  object := by
    intro members _
    rw [Value.Plain, plainMembers_iff]

section Objects

variable {fp : Floating}

theorem plain_object (standard : Standard fp) (e : Elem) (v : e.Impl) :
    (Elem.tree fp e v).Plain := by
  have everything := (Elem.holds_tree_iff fp compositional_true e v).mp trivial
  exact (Elem.holds_tree_iff fp compositional_plain e v).mpr
    (everything.mono (fun t v _ => plain_tree standard t v) fun _ _ _ => by
      simp only [Value.Plain])

theorem taken_iff (standard : Standard fp) {e : Elem} (keyed : Elem.Keyed e) (v : e.Impl)
    (doc : Value) :
    JsonText.parse (representable fp) (Elem.serialize fp e v []) = some doc ↔
      Elem.Shows Printable (fun _ _ => True) e v ∧ doc = Elem.tree fp e v := by
  have leaves := Elem.holds_tree_iff fp
    ((compositional_sound (representable fp)).and compositional_encoded) e v
  have shown : (Elem.tree fp e v).Sound (representable fp) ∧ (Elem.tree fp e v).Encoded ↔
      Elem.Shows Printable (fun _ _ => True) e v := by
    rw [leaves]
    constructor
    · intro both
      exact both.mono (fun t v => (printable_iff standard t v).mp) fun _ _ _ => trivial
    · intro printable
      exact printable.mono (fun t v => (printable_iff standard t v).mpr) fun _ _ _ =>
        ⟨trivial, by simpa only [Value.Encoded] using valid_toName⟩
  rw [serialize_render fp keyed, JsonText.parse_render_eq_some_iff (settled_object standard v),
    ← shown, and_assoc]

mutual
theorem Elem.shows_fresh {leaf : (t : CxxType) → t.Value → Prop}
    {item : List String → UInt32 → Prop} (blank : ∀ t, leaf t t.zero)
    (unset : ∀ enumValues, item enumValues 0) : (e : Elem) → Elem.Shows leaf item e e.fresh
  | .prim t => by
      simp only [Elem.Shows, Elem.fresh]
      exact blank t
  | .enum _ enumValues => by
      simp only [Elem.Shows, Elem.fresh]
      exact unset enumValues
  | .cls _ body => by
      simp only [Elem.Shows, Elem.fresh]
      exact Members.shows_fresh blank unset body

theorem Members.shows_fresh {leaf : (t : CxxType) → t.Value → Prop}
    {item : List String → UInt32 → Prop} (blank : ∀ t, leaf t t.zero)
    (unset : ∀ enumValues, item enumValues 0) : (ms : Members) → Members.Shows leaf item ms ms.fresh
  | .nil => by simp only [Members.Shows]
  | .base _ body rest => by
      simp only [Members.Shows, Members.fresh]
      exact ⟨Members.shows_fresh blank unset body, Members.shows_fresh blank unset rest⟩
  | .choice variants rest => by
      have none' : (0 : UInt32).toNat < 1 := by decide
      simp only [Members.Shows, Members.fresh]
      exact ⟨Variants.shows_past leaf item variants none' _, Members.shows_fresh blank unset rest⟩
  | .required _ elem rest => by
      simp only [Members.Shows, Members.fresh]
      exact ⟨Elem.shows_fresh blank unset elem, Members.shows_fresh blank unset rest⟩
  | .optional _ _ rest => by
      simp only [Members.Shows, Members.fresh]
      exact ⟨nofun, Members.shows_fresh blank unset rest⟩
  | .list _ _ _ rest => by
      simp only [Members.Shows, Members.fresh, AccessorList.clear]
      exact ⟨nofun, Members.shows_fresh blank unset rest⟩
end

theorem printable_zero (t : CxxType) : Printable t t.zero := by
  cases t with
  | float => exact (by decide : IsFinite 0)
  | double => exact (by decide : ¬ exponentField64 0 = 2047)
  | string => exact ⟨[], rfl⟩
  | _ => trivial

theorem named_zero (enumValues : List String) : Named enumValues 0 :=
  .inl (Nat.zero_le _)

theorem parse_behind_unprintable (standard : Standard fp) {name : String} {body : Members}
    (keyed : Elem.Keyed (.cls name body)) {v : body.Impl}
    (unprintable : ¬ Elem.Shows Printable (fun _ _ => True) (.cls name body) v) (held : Bytes) :
    JsonText.parse (representable fp) (held ++ Elem.serialize fp (.cls name body) v []) = none := by
  rw [← Option.not_isSome_iff_eq_none, Option.isSome_iff_exists]
  intro readable
  rcases readable with ⟨doc, parsed⟩
  have text := serialize_render fp keyed v
  have closed := JsonText.closed_render _ (plain_object standard (.cls name body) v)
  have opens : (render (Elem.tree fp (.cls name body) v)).head? = some JsonText.beginObject := by
    rw [Elem.tree, render]
    rfl
  have settled := settled_object (e := .cls name body) standard v
  rw [text] at parsed
  have blank := JsonText.parse_behind closed opens parsed
  have both := JsonText.parse_behind_blanks blank settled parsed
  have own := (JsonText.parse_render_eq_some_iff settled).mpr ⟨both.1, both.2, rfl⟩
  rw [← text] at own
  exact unprintable ((taken_iff standard keyed v _).mp own).1

/-- No JSON text begins with an `x`. -/
theorem parse_behind_x (representable : Bytes → Bool) (text : Bytes) :
    JsonText.parse representable (0x78 :: text) = none := by
  have refused : ∀ fuel, JsonText.parseValue representable fuel (0x78 :: text) = none := by
    intro fuel
    cases fuel with
    | zero => rw [JsonText.parseValue]
    | succ fuel =>
        simp [JsonText.parseValue, JsonText.skip, JsonText.isSpace, JsonText.quotationMark,
          JsonText.beginArray, JsonText.beginObject, JsonText.nullText, JsonText.trueText,
          JsonText.falseText, JsonText.scanNumber, JsonText.isNumberByte, JsonText.isNumber,
          JsonText.magnitude, JsonText.minus, JsonText.decimalPoint, Decimal.isDigit]
  unfold JsonText.parse
  split_ifs
  · rw [refused, Option.bind_none]
  · rfl

theorem deserialize_fresh [CaseTable] (standard : Standard fp) {e : Elem} (keyed : Elem.Keyed e) :
    ∃ got, Elem.deserialize fp [] e (Elem.tree fp e e.fresh) e.fresh = .ok () got := by
  have sound : ∀ t, (tree fp t t.zero).Sound (representable fp) := fun t =>
    ((printable_iff standard t t.zero).mpr (printable_zero t)).1
  have shown : Elem.Shows (fun t v => (tree fp t v).Sound (representable fp)) (fun _ _ => True)
      e e.fresh := Elem.shows_fresh sound (fun _ => trivial) e
  have named : Elem.Shows (fun t v => (tree fp t v).Sound (representable fp)) Named e e.fresh :=
    Elem.shows_fresh sound named_zero e
  exact ⟨_, (Elem.deserialize_tree_iff reads_sound e keyed e.fresh shown e.fresh _ []).mpr
    ⟨named, rfl⟩⟩

end Objects

end Json

namespace Cdr.CdrExternalizer

variable {schema : SchemaModel}

/-- The overload for `std::string`: the bytes are made in a vector of their own. -/
def writeString (reg : CdrRegistry) (type : Accessor schema) (_str : Bytes) :
    Except Exc Bytes := do
  let bytes ← write reg type []
  return bytes

def readString (reg : CdrRegistry) (str : Bytes) (type : Accessor schema) :
    Except Exc Unit × Accessor schema :=
  read reg str type

end Cdr.CdrExternalizer

namespace Externalizer

open Cdr (Accessor Built CdrRegistry)
open JsonText (Value)

variable {schema : SchemaModel} (reg : CdrRegistry) (fp : Json.Floating)
  (parse : Bytes → Except Exc Value)

/-- The `write` overloads that take a container and are supported. -/
inductive Overload
  | cdrVector
  | cdrString
  | jsonString
  deriving DecidableEq, Repr

def Overload.write (o : Overload) (type : Accessor schema) (held : Bytes) : Except Exc Bytes :=
  match o with
  | .cdrVector => Cdr.CdrExternalizer.write reg type held
  | .cdrString => Cdr.CdrExternalizer.writeString reg type held
  | .jsonString =>
      Json.JsonExternalizer.write fp
        (Json.registerAllJsonHandlers (Json.typeEntries schema.types)) type held

def Overload.read [CaseTable] (o : Overload) (container : Bytes) (type : Accessor schema) :
    Except Exc Unit × Accessor schema :=
  match o with
  | .cdrVector => Cdr.CdrExternalizer.read reg container type
  | .cdrString => Cdr.CdrExternalizer.readString reg container type
  | .jsonString =>
      Json.JsonExternalizer.read fp parse
        (Json.registerAllJsonHandlers (Json.typeEntries schema.types)) container type

def outcome (read : Except Exc Unit × Accessor schema) : Bool × Accessor schema :=
  (read.1.isOk, read.2)

/-- Whatever the container held, it is decoded as if it had been empty. -/
def IgnoresContent [CaseTable] (o : Overload) (v : Accessor schema) : Prop :=
  ∀ (held : Bytes) (target : v.elem.Impl), ∃ filled own,
    o.write reg fp v held = .ok filled ∧ o.write reg fp v [] = .ok own ∧
    outcome (o.read reg fp parse filled { v with obj := target }) =
      outcome (o.read reg fp parse own { v with obj := target })

/-- The string overload of CDR; the vector overload for a class that stores nothing; the string
overload of JSON for an object whose own text is no JSON. -/
def Harmless (o : Overload) (v : Accessor schema) : Prop :=
  match o with
  | .cdrVector => Cdr.Elem.Blank v.elem
  | .cdrString => True
  | .jsonString => ¬ Json.Elem.Shows Json.Printable (fun _ _ => True) v.elem v.obj

variable {reg fp parse}

theorem outcome_decoded {v : Accessor schema} {bytes : Bytes} {target got : v.elem.Impl} {off : Nat}
    (known : reg.lookupByTag v.getAccessorType = .ok v.typeName)
    (run : Cdr.Elem.deserializeAt bytes v.elem ⟨0, target⟩ = .ok () ⟨off, got⟩) :
    outcome (Cdr.CdrExternalizer.read reg bytes { v with obj := target }) =
      (true, { v with obj := got }) := by
  have read := (Cdr.CdrExternalizer.read_eq_ok v.laidOut known).mpr ⟨off, run⟩
  rw [read]
  rfl

theorem cdrVector_iff [CaseTable] {v : Accessor schema}
    (known : reg.lookupByTag v.getAccessorType = .ok v.typeName) :
    IgnoresContent reg fp parse .cdrVector v ↔ Cdr.Elem.Blank v.elem := by
  have written := fun held => Cdr.CdrExternalizer.write_run v held known
  constructor
  · intro ignores
    by_contra stores
    rcases Cdr.Elem.exists_apart v.elem (Cdr.roomy_layout v.laidOut) stores with
      ⟨first, second, fits, fits', apart⟩
    have own : ∀ held, Cdr.Elem.InLimits v.elem held →
        outcome (Cdr.CdrExternalizer.read reg (Cdr.Elem.serialize v.elem v.obj [])
            { v with obj := v.elem.fresh }) =
          (true, { v with obj := Cdr.Elem.overwrite v.elem held v.elem.fresh }) := by
      intro held limits
      rcases ignores (Cdr.Elem.serialize v.elem held []) v.elem.fresh with
        ⟨filled, own, write, writeOwn, same⟩
      have filledEq := Except.ok.inj ((written _).symm.trans write)
      have ownEq := Except.ok.inj ((written _).symm.trans writeOwn)
      have inside : Cdr.Elem.serialize v.elem held [] <+: filled := by
        rw [← filledEq]
        exact Cdr.Elem.serialize_extends v.elem v.obj _
      have run := Cdr.Elem.deserializeAt_serialize v.elem held v.elem.fresh [] filled limits inside
      rw [ownEq]
      exact same.symm.trans (outcome_decoded known run)
    have same := (own first fits).symm.trans (own second fits')
    injection same with _ objects
    injection objects with _ _ objects
    exact apart objects
  · intro blank held target
    refine ⟨_, _, written held, written [], ?_⟩
    have empty : ([] : Bytes).length ≤ held.length := Nat.zero_le _
    have shorter := Cdr.Elem.blank_length_mono v.elem blank v.obj v.obj empty
    have filled := Cdr.Elem.blank_deserializeAt v.elem blank v.obj target [] _ shorter
    have own := Cdr.Elem.blank_deserializeAt v.elem blank v.obj target [] _ (Nat.le_refl _)
    exact (outcome_decoded known filled).trans (outcome_decoded known own).symm

theorem cdrString_ignores [CaseTable] {v : Accessor schema}
    (known : reg.lookupByTag v.getAccessorType = .ok v.typeName) :
    IgnoresContent reg fp parse .cdrString v := by
  intro held target
  have written : Cdr.CdrExternalizer.writeString reg v held =
      .ok (Cdr.Elem.serialize v.elem v.obj []) := by
    rw [Cdr.CdrExternalizer.writeString, Cdr.CdrExternalizer.write_run v [] known]
  exact ⟨_, _, written, written, rfl⟩

section Json

variable {m : TypeModel} {v : Accessor schema}

theorem outcome_refused [CaseTable] {text : Bytes} {target : v.elem.Impl} {e : Exc}
    (refused : parse text = .error e) :
    outcome (Overload.read reg fp parse .jsonString text { v with obj := target }) =
      (false, { v with obj := target }) := by
  simp only [Overload.read, Json.JsonExternalizer.read, refused, outcome]
  rfl

theorem outcome_parsed [CaseTable] (found : schema.find v.typeName = some m)
    (classy : m.isSimpleRestriction = false) {text : Bytes} {target : v.elem.Impl} {doc : Value}
    (parsed : parse text = .ok doc) :
    outcome (Overload.read reg fp parse .jsonString text { v with obj := target }) =
      match Json.Elem.deserialize fp [] v.elem doc v.elem.fresh with
      | .ok _ got => (true, { v with obj := got })
      | .error _ left => (false, { v with obj := left }) := by
  have known := Json.lookup_registerAll (Json.typeEntries schema.types) v.typeName
  rw [if_pos (Json.mem_typeEntries found classy)] at known
  have run := Json.deserialize_self fp { v with obj := v.elem.fresh } doc
  simp only [Overload.read, Json.JsonExternalizer.read, parsed, known, Elem.reset, run, outcome]
  cases Json.Elem.deserialize fp [] v.elem doc v.elem.fresh with
  | ok u got => rfl
  | error e left => rfl

theorem refused_of_none (exactly : Json.ParsesExactly fp parse) {text : Bytes}
    (refused : JsonText.parse (Json.representable fp) text = none) :
    ∃ e, parse text = .error e := by
  cases parsed : parse text with
  | error e => exact ⟨e, rfl⟩
  | ok doc =>
      rw [(exactly text doc).mp parsed] at refused
      cases refused

theorem jsonString_iff [CaseTable] (found : schema.find v.typeName = some m)
    (classy : m.isSimpleRestriction = false) (standard : Json.Standard fp)
    (exactly : Json.ParsesExactly fp parse) (keyed : Json.Elem.Keyed v.elem) :
    IgnoresContent reg fp parse .jsonString v ↔
      ¬ Json.Elem.Shows Json.Printable (fun _ _ => True) v.elem v.obj := by
  have written := fun held => Json.JsonExternalizer.write_run fp v found classy held
  constructor
  · intro ignores printable
    have taken := (exactly _ _).mpr ((Json.taken_iff standard keyed v.obj _).mpr ⟨printable, rfl⟩)
    have text : Json.Elem.serialize fp v.elem v.obj [0x78] =
        0x78 :: JsonText.render (Json.Elem.tree fp v.elem v.obj) :=
      Json.Elem.serialize_eq fp v.elem keyed v.obj [0x78]
    have refused := refused_of_none exactly
      (Json.parse_behind_x (Json.representable fp)
        (JsonText.render (Json.Elem.tree fp v.elem v.obj)))
    rcases refused with ⟨e, refused⟩
    have left : ∀ target,
        (match Json.Elem.deserialize fp [] v.elem (Json.Elem.tree fp v.elem v.obj)
            v.elem.fresh with
        | .ok _ got => (true, ({ v with obj := got } : Accessor schema))
        | .error _ left => (false, { v with obj := left })) =
          (false, { v with obj := target }) := by
      intro target
      rcases ignores [0x78] target with ⟨filled, own, write, writeOwn, same⟩
      have filledEq := Except.ok.inj ((written _).symm.trans write)
      have ownEq := Except.ok.inj ((written _).symm.trans writeOwn)
      rw [← filledEq, ← ownEq, text, outcome_refused refused,
        outcome_parsed found classy taken] at same
      exact same.symm
    cases run : Json.Elem.deserialize fp [] v.elem (Json.Elem.tree fp v.elem v.obj)
        v.elem.fresh with
    | ok u got =>
        have clash := left v.obj
        rw [run] at clash
        cases congrArg Prod.fst clash
    | error e stop =>
        -- what is left does not depend on the target, so there is only one object
        rw [run] at left
        have only := (left v.obj).symm.trans (left v.elem.fresh)
        injection only with _ accessors
        injection accessors with _ _ objects
        rcases Json.deserialize_fresh standard keyed with ⟨got, fine⟩
        rw [objects, fine] at run
        cases run
  · intro unprintable held target
    refine ⟨_, _, written held, written [], ?_⟩
    have behind : ∀ held, JsonText.parse (Json.representable fp)
        (held ++ Json.Elem.serialize fp v.elem v.obj []) = none := by
      rcases v with ⟨typeName, e, laidOut, obj⟩
      cases e with
      | prim t => cases Cdr.castTo_self laidOut
      | enum name enumValues => simp [Json.Elem.Shows] at unprintable
      | cls name body => exact Json.parse_behind_unprintable standard keyed unprintable
    have text : Json.Elem.serialize fp v.elem v.obj held =
        held ++ Json.Elem.serialize fp v.elem v.obj [] := by
      rw [Json.Elem.serialize_eq fp v.elem keyed, Json.Elem.serialize_eq fp v.elem keyed _ [],
        List.nil_append]
    rcases refused_of_none exactly (behind held) with ⟨_, filled⟩
    rcases refused_of_none exactly (behind []) with ⟨_, own⟩
    rw [text, outcome_refused filled]
    exact (outcome_refused own).symm

/-- White space is harmless in front of the text of any object. -/
theorem jsonString_blanks [CaseTable] (found : schema.find v.typeName = some m)
    (classy : m.isSimpleRestriction = false) (standard : Json.Standard fp)
    (exactly : Json.ParsesExactly fp parse) (keyed : Json.Elem.Keyed v.elem) {held : Bytes}
    (blank : ∀ c ∈ held, JsonText.isSpace c = true) (target : v.elem.Impl) :
    ∃ filled own, Overload.write reg fp .jsonString v held = .ok filled ∧
      Overload.write reg fp .jsonString v [] = .ok own ∧
      outcome (Overload.read reg fp parse .jsonString filled { v with obj := target }) =
        outcome (Overload.read reg fp parse .jsonString own { v with obj := target }) := by
  by_cases printable : Json.Elem.Shows Json.Printable (fun _ _ => True) v.elem v.obj
  · have written := fun held => Json.JsonExternalizer.write_run fp v found classy held
    refine ⟨_, _, written held, written [], ?_⟩
    have alone := (Json.taken_iff standard keyed v.obj _).mpr ⟨printable, rfl⟩
    have behind : JsonText.parse (Json.representable fp)
        (Json.Elem.serialize fp v.elem v.obj held) = some (Json.Elem.tree fp v.elem v.obj) := by
      rw [Json.serialize_render fp keyed] at alone
      rw [Json.Elem.serialize_eq fp v.elem keyed]
      rcases (JsonText.parse_render_eq_some_iff (Json.settled_object standard v.obj)).mp alone with
        ⟨sound, encoded, _⟩
      exact JsonText.parse_blanks_render sound
        (JsonText.valid_render _ sound encoded) blank
    rw [outcome_parsed found classy ((exactly _ _).mpr behind),
      outcome_parsed found classy ((exactly _ _).mpr alone)]
  · exact (jsonString_iff found classy standard exactly keyed).mpr printable held target

end Json

/-- A write is read as if its container had been empty exactly when it is harmless. -/
theorem ignoresContent_iff [CaseTable] (built : Built schema reg) (standard : Json.Standard fp)
    (exactly : Json.ParsesExactly fp parse) (o : Overload)
    (names : o = .jsonString → Json.DistinctNames schema) (v : Accessor schema) :
    IgnoresContent reg fp parse o v ↔ Harmless o v := by
  rcases find_of_layout v.laidOut with ⟨m, found, classy⟩
  have known := built.lookupByTag found classy
  cases o with
  | cdrVector => exact cdrVector_iff known
  | cdrString => exact iff_of_true (cdrString_ignores known) trivial
  | jsonString =>
      exact jsonString_iff found classy standard exactly
        (Json.keyed_layout (names rfl) v.laidOut)

section Sample

attribute [local instance] latinCase

def sampleHeader : Accessor sampleSchema :=
  ⟨"HeaderType", headerLayout, layout_header, unlabelledHeader⟩

theorem ignoresContent_header :
    IgnoresContent Cdr.sampleRegistry Json.plainFloating (Json.exactParse Json.plainFloating)
      .cdrString sampleHeader :=
  (ignoresContent_iff Cdr.sampleSchema_built Json.plainFloating_standard
    (Json.exactParse_exactly _) .cdrString (fun _ => Json.sampleSchema_distinctNames)
    sampleHeader).mpr trivial

/-- Behind this content the header cannot be read, alone it can. -/
def Misread (o : Overload) (held : Bytes) : Prop :=
  ∃ filled own,
    o.write Cdr.sampleRegistry Json.plainFloating sampleHeader held = .ok filled ∧
    o.write Cdr.sampleRegistry Json.plainFloating sampleHeader [] = .ok own ∧
    (o.read Cdr.sampleRegistry Json.plainFloating (Json.exactParse Json.plainFloating) filled
      sampleHeader).1.isOk = false ∧
    (o.read Cdr.sampleRegistry Json.plainFloating (Json.exactParse Json.plainFloating) own
      sampleHeader).1.isOk = true

theorem Misread.not_ignored {o : Overload} {held : Bytes} (misread : Misread o held) :
    ¬ IgnoresContent Cdr.sampleRegistry Json.plainFloating (Json.exactParse Json.plainFloating) o
      sampleHeader := by
  intro ignores
  rcases misread with ⟨filled, own, write, writeOwn, fails, reads⟩
  rcases ignores held sampleHeader.obj with ⟨filled', own', write', writeOwn', same⟩
  rw [write] at write'
  rw [writeOwn] at writeOwn'
  rw [← Except.ok.inj write', ← Except.ok.inj writeOwn'] at same
  have verdicts := congrArg Prod.fst same
  exact Bool.noConfusion (fails.symm.trans (verdicts.trans reads))

/-- One letter in front is enough for the vector of CDR and for the string of JSON. -/
theorem header_behind_letter :
    (Misread .cdrVector [0x78] ∧
      ¬ IgnoresContent Cdr.sampleRegistry Json.plainFloating
        (Json.exactParse Json.plainFloating) .cdrVector sampleHeader) ∧
    (Misread .jsonString [0x78] ∧
      ¬ IgnoresContent Cdr.sampleRegistry Json.plainFloating
        (Json.exactParse Json.plainFloating) .jsonString sampleHeader) := by
  have vector : Misread .cdrVector [0x78] := by
    refine ⟨_, _, rfl, rfl, ?_, ?_⟩
    · decide +kernel
    · decide +kernel
  have string : Misread .jsonString [0x78] := by
    refine ⟨_, _, rfl, rfl, ?_, ?_⟩
    · decide +kernel
    · decide +kernel
  exact ⟨⟨vector, vector.not_ignored⟩, string, string.not_ignored⟩

end Sample

end Externalizer

end Arcal
