import Arcal.Cdr.Externalizer
import Arcal.Cdr.Faults
import Arcal.Json.Externalizer
import Arcal.Json.Faults

/-! Which exceptions leave `read`. Both externalizers translate what is a
`std::runtime_error`, and JSON also the parser's exceptions; `UUID::fromString` lets a
`std::invalid_argument` of `std::stoul` through. -/

namespace Arcal.Externalizer

open Schema Verdict
open Cdr (Accessor Built CdrRegistry Part)
open JsonText (Value)

/-- The call returns, or throws a `UCIException`. -/
def OnlyUci {α : Type} (result : Except Exc α) : Prop :=
  ∀ e, result = .error e → ∃ what, e = .uciException what

theorem onlyUci_ok {α : Type} (a : α) : OnlyUci (.ok a) := by
  intro e thrown
  cases thrown

theorem onlyUci_uciException {α : Type} (what : Bytes) :
    OnlyUci (.error (.uciException what) : Except Exc α) := by
  intro e thrown
  injection thrown with same
  exact ⟨what, same.symm⟩

theorem not_onlyUci_invalidArgument {α : Type} (what : Bytes) :
    ¬ OnlyUci (.error (.invalidArgument what) : Except Exc α) := by
  intro only
  rcases only _ rfl with ⟨_, same⟩
  cases same

theorem thrown_cases {fault : Fault} {e : Exc} (thrown : fault.Thrown e) :
    (fault = .rejected ∧ ∃ what, e = .uciException what) ∨
      (fault = .digitless ∧ ∃ what, e = .invalidArgument what) := by
  cases fault with
  | rejected =>
      cases e with
      | uciException what => exact .inl ⟨rfl, what, rfl⟩
      | runtimeError what => exact thrown.elim
      | invalidArgument what => exact thrown.elim
      | outOfRange what => exact thrown.elim
      | badCast => exact thrown.elim
      | jsonException what => exact thrown.elim
  | digitless =>
      cases e with
      | uciException what => exact thrown.elim
      | runtimeError what => exact thrown.elim
      | invalidArgument what => exact .inr ⟨rfl, what, rfl⟩
      | outOfRange what => exact thrown.elim
      | badCast => exact thrown.elim
      | jsonException what => exact thrown.elim

theorem json_read_onlyUci_iff [CaseTable] {schema : SchemaModel} (fp : Json.Floating)
    {parse : Bytes → Except Exc Value}
    (honest : ∀ text e, parse text = .error e → ∃ what, e = .jsonException what)
    {m : TypeModel} (type : Accessor schema) (found : schema.find type.typeName = some m)
    (classy : m.isSimpleRestriction = false) (text : Bytes) :
    OnlyUci (Json.JsonExternalizer.read fp parse
        (Json.registerAllJsonHandlers (Json.typeEntries schema.types)) text type).1 ↔
      ∀ value, parse text = .ok value → Json.Elem.check fp type.elem value ≠ .error .digitless := by
  have known := Json.lookup_registerAll (Json.typeEntries schema.types) type.typeName
  rw [if_pos (Json.mem_typeEntries found classy)] at known
  cases parsed : parse text with
  | error e =>
      rcases honest text e parsed with ⟨what, rfl⟩
      simp only [Json.JsonExternalizer.read, parsed, Json.JsonExternalizer.rethrow]
      constructor
      · intro _ value same
        cases same
      · intro _
        exact onlyUci_uciException _
  | ok doc =>
      have run := Json.deserialize_self fp { type with obj := type.elem.reset type.obj } doc
      simp only [Json.JsonExternalizer.read, parsed, known, run]
      have foreseen := Json.Elem.deserialize_endsLike fp type.elem [] doc
        (type.elem.reset type.obj)
      rcases foreseen.throws with ⟨_, obj, _, ended, seen⟩ | ⟨e, obj, fault, ended, seen, thrown⟩
      · simp only [ended]
        constructor
        · intro _ value same clash
          injection same with same
          rw [← same, seen] at clash
          cases clash
        · intro _
          exact onlyUci_ok ()
      · simp only [ended]
        rcases thrown_cases thrown with ⟨rfl, what, rfl⟩ | ⟨rfl, what, rfl⟩
        · constructor
          · intro _ value same clash
            injection same with same
            rw [← same, seen] at clash
            cases clash
          · intro _
            exact onlyUci_uciException _
        · constructor
          · intro only
            exact absurd only (not_onlyUci_invalidArgument _)
          · intro clean
            exact absurd seen (clean doc rfl)

theorem cdr_read_onlyUci_iff {schema : SchemaModel} {reg : CdrRegistry} (type : Accessor schema)
    (known : reg.lookupByTag type.getAccessorType = .ok type.typeName) (vec : Bytes) :
    OnlyUci (Cdr.CdrExternalizer.read reg vec type).1 ↔
      Cdr.Elem.scan vec type.elem 0 ≠ .error .digitless := by
  have run := Cdr.deserializeAt_self type vec 0
  simp only [Cdr.CdrExternalizer.read, known, run]
  have foreseen := Cdr.Elem.deserializeAt_stopsLike vec type.elem 0 type.obj
  rcases foreseen.throws with ⟨_, stop, _, ended, seen⟩ | ⟨e, stop, fault, ended, seen, thrown⟩
  · simp only [ended, seen]
    exact iff_of_true (onlyUci_ok ()) (by simp)
  · simp only [ended, seen]
    rcases thrown_cases thrown with ⟨rfl, what, rfl⟩ | ⟨rfl, what, rfl⟩
    · exact iff_of_true (onlyUci_uciException _) (by simp)
    · exact iff_of_false (not_onlyUci_invalidArgument _) (by simp)

/-- Every failure of `read` is a `UCIException` exactly as long as the first thing wrong
with the input is not a UUID text of the right shape with an octet that has no digit. -/
theorem read_onlyUci_iff [CaseTable] {schema : SchemaModel} {reg : CdrRegistry}
    (wf : WellFormed schema)
    (built : Built schema reg) (fp : Json.Floating) {parse : Bytes → Except Exc Value}
    (honest : ∀ text e, parse text = .error e → ∃ what, e = .jsonException what)
    (typeName : String) {m : TypeModel} (found : schema.find typeName = some m)
    (classy : m.isSimpleRestriction = false) :
    ∃ (e : Elem) (laidOut : layout schema typeName = some e), ∀ d : e.Impl,
      (∀ text, OnlyUci (Json.JsonExternalizer.read fp parse
          (Json.registerAllJsonHandlers (Json.typeEntries schema.types)) text
          ⟨typeName, e, laidOut, d⟩).1 ↔
        ∀ value, parse text = .ok value → Json.Elem.check fp e value ≠ .error .digitless) ∧
      (∀ vec, OnlyUci (Cdr.CdrExternalizer.read reg vec ⟨typeName, e, laidOut, d⟩).1 ↔
        Cdr.Elem.scan vec e 0 ≠ .error .digitless) := by
  rcases exists_layout wf found classy with ⟨e, laidOut⟩
  refine ⟨e, laidOut, ?_⟩
  intro d
  constructor
  · intro text
    exact json_read_onlyUci_iff fp honest ⟨typeName, e, laidOut, d⟩ found classy text
  · intro vec
    exact cdr_read_onlyUci_iff ⟨typeName, e, laidOut, d⟩ (built.lookupByTag found classy) vec

section Sample

attribute [local instance] latinCase

def digitlessUuid : Bytes := utf8 "zzzzzzzz-zzzz-zzzz-zzzz-zzzzzzzzzzzz"

def digitlessDocument : Value := .object [(utf8 "id", .string digitlessUuid)]

def digitlessText : Bytes :=
  utf8 "\x7b\"id\":\"zzzzzzzz-zzzz-zzzz-zzzz-zzzzzzzzzzzz\"\x7d"

theorem digitlessText_render : digitlessText = JsonText.render digitlessDocument := by
  decide +kernel

theorem digitlessText_parsed : Json.sampleParse digitlessText = .ok digitlessDocument := by
  apply Json.sampleParse_conforming
  rw [digitlessText_render]
  apply JsonText.parse_render
  · simp [digitlessDocument, JsonText.Value.Sound, JsonText.SoundMembers]
  · rw [← digitlessText_render]
    exact ⟨_, rfl⟩

theorem sampleParse_honest (text : Bytes) (e : Exc) (refused : Json.sampleParse text = .error e) :
    ∃ what, e = .jsonException what := by
  unfold Json.sampleParse at refused
  split at refused
  · cases refused
  · injection refused with same
    exact ⟨_, same.symm⟩

/-- A header without its id is refused with a message by both externalizers. -/
theorem read_onlyUci_header :
    OnlyUci (Json.JsonExternalizer.read Json.sampleFloating Json.sampleParse
      (Json.registerAllJsonHandlers (Json.typeEntries sampleSchema.types)) (utf8 "\x7b\x7d")
      ⟨"HeaderType", headerLayout, layout_header, unlabelledHeader⟩).1 ∧
    OnlyUci (Cdr.CdrExternalizer.read Cdr.sampleRegistry []
      ⟨"HeaderType", headerLayout, layout_header, unlabelledHeader⟩).1 := by
  rcases read_onlyUci_iff sampleSchema_wellFormed Cdr.sampleSchema_built Json.sampleFloating
    sampleParse_honest "HeaderType" rfl rfl with ⟨e, laidOut, iff⟩
  have same : headerLayout = e := Option.some.inj (layout_header.symm.trans laidOut)
  subst same
  have empty : utf8 "\x7b\x7d" = JsonText.render (.object []) := by decide
  have parsed : Json.sampleParse (utf8 "\x7b\x7d") = .ok (.object []) := by
    apply Json.sampleParse_conforming
    rw [empty]
    apply JsonText.parse_render
    · simp [JsonText.Value.Sound, JsonText.SoundMembers]
    · rw [← empty]
      exact ⟨_, rfl⟩
  constructor
  · apply ((iff unlabelledHeader).1 _).mpr
    intro value again
    rw [parsed] at again
    rw [← Except.ok.inj again]
    decide +kernel
  · apply ((iff unlabelledHeader).2 _).mpr
    decide +kernel

/-- The exception of `std::stoul` leaves both externalizers. -/
theorem read_lets_invalidArgument_through :
    ¬ OnlyUci (Json.JsonExternalizer.read Json.sampleFloating Json.sampleParse
      (Json.registerAllJsonHandlers (Json.typeEntries sampleSchema.types)) digitlessText
      ⟨"HeaderType", headerLayout, layout_header, unlabelledHeader⟩).1 ∧
    ¬ OnlyUci (Cdr.CdrExternalizer.read Cdr.sampleRegistry (Cdr.encodeString [] digitlessUuid)
      ⟨"HeaderType", headerLayout, layout_header, unlabelledHeader⟩).1 := by
  constructor
  · intro only
    have clean := (json_read_onlyUci_iff Json.sampleFloating sampleParse_honest
      ⟨"HeaderType", headerLayout, layout_header, unlabelledHeader⟩ rfl rfl digitlessText).mp only
    have faulty : Json.Elem.check Json.sampleFloating headerLayout digitlessDocument =
        .error .digitless := by decide +kernel
    exact clean digitlessDocument digitlessText_parsed faulty
  · intro only
    have clean := (cdr_read_onlyUci_iff
      ⟨"HeaderType", headerLayout, layout_header, unlabelledHeader⟩ (by rfl) _).mp only
    have faulty : Cdr.Elem.scan (Cdr.encodeString [] digitlessUuid) headerLayout 0 =
        .error .digitless := by decide +kernel
    exact clean faulty

end Sample

end Arcal.Externalizer
