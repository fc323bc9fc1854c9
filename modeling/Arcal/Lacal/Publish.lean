import Arcal.Dds.Dispatch
import Arcal.Json.Externalizer
import Arcal.Json.Reprint

/-! `publishDecoded`: a CDR payload off the bus becomes the JSON text that clients get. The
decoder lets through more than JSON text can hold, and more than the reader takes back. -/

namespace Arcal.Lacal

open Schema
open Cdr (Accessor CdrRegistry Built)
open Dds (cdrDeserialize)
open Json (Floating JsonRegistry JsonExternalizer.read_eq_ok JsonExternalizer.write_run)
open JsonText (Value)

/-- The loop of `render_accessor_factory`, with what the lambda of the entry creates. -/
def factoryEntries [CaseTable] (seen : List String) : List GlobalElementModel → List
    (UInt32 × String)
  | [] => []
  | elem :: rest =>
      let cxxType := xsdNameToCxx elem.typeName
      if elem.typeName ≠ "" ∧ cxxType ∉ seen then
        (fnv1a32 elem.typeName, elem.typeName) :: factoryEntries (cxxType :: seen) rest
      else factoryEntries seen rest

def create (schema : SchemaModel) (typeName : String) : Option (Accessor schema) :=
  match laidOut : layout schema typeName with
  | some elem => some ⟨typeName, elem, laidOut, elem.fresh⟩
  | none => none

/-- Of several entries of one tag the table keeps the first. -/
def arcalCreateAccessor [CaseTable] (schema : SchemaModel) (tag : UInt32) : Option
    (Accessor schema) := do
  let typeName ← (factoryEntries [] schema.globalElements).lookup tag
  create schema typeName

/-- What becomes of a sample: text for `deliver`, or a line on `stderr`. -/
inductive Published
  | delivered (messageName json : Bytes)
  | unknownTag
  | decodeFailed (e : Exc)

variable {schema : SchemaModel}

/-- `jsonExt_` writes with the handlers of the whole schema. -/
def jsonHandlers (schema : SchemaModel) : JsonRegistry :=
  Json.registerAllJsonHandlers (Json.typeEntries schema.types)

def publishDecoded [CaseTable] (schema : SchemaModel) (fp : Floating) (bridge : Option CdrRegistry)
    (tag : UInt32) (data : Bytes) : Published :=
  match arcalCreateAccessor schema tag with
  | none => .unknownTag
  | some acc =>
      match cdrDeserialize bridge tag data acc with
      | (.error e, _) => .decodeFailed e
      | (.ok _, acc) =>
          match Json.JsonExternalizer.write fp (jsonHandlers schema) acc [] with
          | .error e => .decodeFailed e
          | .ok json => .delivered (utf8 acc.typeName) json

/-- The text is read into an accessor, and the accessor is then written as that text. -/
def ReadBack [CaseTable] (fp : Floating) (parse : Bytes → Except Exc Value) (json : Bytes)
    (acc : Accessor schema) : Prop :=
  ∃ got, Json.JsonExternalizer.read fp parse (jsonHandlers schema) json acc = (.ok (), got) ∧
    Json.JsonExternalizer.write fp (jsonHandlers schema) got [] = .ok json

/-- Strings in valid UTF-8, finite numbers without negative zeros, and enum items that are
declared (or whatever, if an item is called `invalid`). -/
def Lasting (acc : Accessor schema) : Prop := Json.Elem.Shows Json.Lasting Named acc.elem acc.obj

section Decoded

variable {fp : Floating} {parse : Bytes → Except Exc Value}

theorem write_object (acc : Accessor schema) :
    Json.JsonExternalizer.write fp (jsonHandlers schema) acc [] =
      .ok (Json.Elem.serialize fp acc.elem acc.obj []) := by
  obtain ⟨m, found, classy⟩ := find_of_layout acc.laidOut
  exact JsonExternalizer.write_run fp acc found classy []

theorem readBack_iff [CaseTable] (acc : Accessor schema) (v d : acc.elem.Impl) :
    ReadBack fp parse (Json.Elem.serialize fp acc.elem v []) { acc with obj := d } ↔
      ∃ doc got, parse (Json.Elem.serialize fp acc.elem v []) = .ok doc ∧
        Json.Elem.deserialize fp [] acc.elem doc acc.elem.fresh = .ok () got ∧
        Json.Elem.serialize fp acc.elem got [] = Json.Elem.serialize fp acc.elem v [] := by
  obtain ⟨m, found, classy⟩ := find_of_layout acc.laidOut
  have read : ∀ got : Accessor schema,
      Json.JsonExternalizer.read fp parse (jsonHandlers schema)
          (Json.Elem.serialize fp acc.elem v []) { acc with obj := d } = (.ok (), got) ↔
        ∃ doc filled, parse (Json.Elem.serialize fp acc.elem v []) = .ok doc ∧
          Json.Elem.deserialize fp [] acc.elem doc acc.elem.fresh = .ok () filled ∧
          got = { acc with obj := filled } := fun _ =>
    JsonExternalizer.read_eq_ok fp { acc with obj := d } found classy
  constructor
  · rintro ⟨got, run, same⟩
    obtain ⟨doc, filled, parsed, ended, rfl⟩ := (read got).mp run
    rw [write_object] at same
    exact ⟨doc, filled, parsed, ended, Except.ok.inj same⟩
  · rintro ⟨doc, filled, parsed, ended, same⟩
    refine ⟨_, (read _).mpr ⟨doc, filled, parsed, ended, rfl⟩, ?_⟩
    rw [write_object, same]

theorem publishDecoded_eq [CaseTable] {bridge : Option CdrRegistry} {tag : UInt32} {data : Bytes}
    {acc decoded : Accessor schema} (created : arcalCreateAccessor schema tag = some acc)
    (decodes : cdrDeserialize bridge tag data acc = (.ok (), decoded)) :
    publishDecoded schema fp bridge tag data =
      .delivered (utf8 decoded.typeName)
        (Json.Elem.serialize fp decoded.elem decoded.obj []) := by
  simp only [publishDecoded, created, decodes, write_object]

/-- A payload that is decoded becomes text that any accessor of its type reads back as the same
text, exactly when the accessor it was decoded into holds nothing but what lasts. -/
theorem publishDecoded_readBack_iff [CaseTable] (names : Json.DistinctNames schema)
    (standard : Json.Standard fp) (exactly : Json.ParsesExactly fp parse)
    (bridge : Option CdrRegistry) (tag : UInt32) (data : Bytes) {acc decoded : Accessor schema}
    (created : arcalCreateAccessor schema tag = some acc)
    (decodes : cdrDeserialize bridge tag data acc = (.ok (), decoded)) (d : decoded.elem.Impl) :
    (∃ json, publishDecoded schema fp bridge tag data =
        .delivered (utf8 decoded.typeName) json ∧
      ReadBack fp parse json { decoded with obj := d }) ↔
    Lasting decoded := by
  have keyed := Json.keyed_layout names decoded.laidOut
  rw [Lasting, ← Json.Elem.rewritten_alike_iff standard exactly keyed, ← readBack_iff decoded _ d,
    publishDecoded_eq created decodes]
  constructor
  · rintro ⟨json, same, back⟩
    injection same with _ text
    exact text ▸ back
  · intro back
    exact ⟨_, rfl, back⟩

end Decoded

theorem cdrDeserialize_ok {reg : CdrRegistry} {tag : UInt32} {acc : Accessor schema}
    {data : Bytes} {off : Nat} {got : acc.elem.Impl}
    (known : reg.lookupByTag tag = .ok acc.typeName)
    (run : Cdr.Elem.deserializeAt data acc.elem ⟨0, acc.obj⟩ = .ok () ⟨off, got⟩) :
    cdrDeserialize (some reg) tag data acc = (.ok (), { acc with obj := got }) := by
  simp only [cdrDeserialize, known, Cdr.deserializeAt_self, run]

section Sample

attribute [local instance] latinCase

def speedPayload : Bytes := Cdr.Elem.serialize trackLayout speedTrack []

theorem publishDecoded_readBack_track :
    ∃ json, publishDecoded sampleSchema Json.plainFloating (some Cdr.sampleRegistry)
        (fnv1a32 "TrackMDT") speedPayload = .delivered (utf8 "TrackMDT") json ∧
      ReadBack Json.plainFloating (Json.exactParse Json.plainFloating) json
        (⟨"TrackMDT", trackLayout, layout_sampleSchema, sampleTrack⟩ : Accessor sampleSchema) := by
  have created : arcalCreateAccessor sampleSchema (fnv1a32 "TrackMDT") =
      some ⟨"TrackMDT", trackLayout, layout_sampleSchema, trackLayout.fresh⟩ := by rfl
  have known : Cdr.sampleRegistry.lookupByTag (fnv1a32 "TrackMDT") = .ok "TrackMDT" := by rfl
  have run := Cdr.Elem.deserializeAt_serialize trackLayout speedTrack trackLayout.fresh []
    speedPayload Cdr.speedTrack_inLimits (List.prefix_refl _)
  have whole : Cdr.Elem.overwrite trackLayout speedTrack trackLayout.fresh = speedTrack := rfl
  rw [whole] at run
  have decodes := @cdrDeserialize_ok sampleSchema _ _
    ⟨"TrackMDT", trackLayout, layout_sampleSchema, trackLayout.fresh⟩ _ _ _ known run
  refine (publishDecoded_readBack_iff Json.sampleSchema_distinctNames Json.plainFloating_standard
    (Json.exactParse_exactly _) (some Cdr.sampleRegistry) (fnv1a32 "TrackMDT") speedPayload
    created decodes sampleTrack).mpr ?_
  exact Json.speedTrack_lasting

def stateRegistry : CdrRegistry :=
  ⟨(Cdr.typeEntries Json.stateSchema).reverse.map fun entry => (entry.2, entry.1)⟩

def undeclaredPayload : Bytes := [0, 0, 0, 7]

/-- An undeclared ordinal is decoded, and written as an item `invalid` that no reader takes. -/
theorem undeclared_item_unreadable :
    Built Json.stateSchema stateRegistry ∧ Json.DistinctNames Json.stateSchema ∧
      Json.Standard Json.plainFloating ∧
    ∃ acc decoded : Accessor Json.stateSchema,
      arcalCreateAccessor Json.stateSchema (fnv1a32 "StateMDT") = some acc ∧
      cdrDeserialize (some stateRegistry) (fnv1a32 "StateMDT") undeclaredPayload acc =
        (.ok (), decoded) ∧
      ∃ json, publishDecoded Json.stateSchema Json.plainFloating (some stateRegistry)
          (fnv1a32 "StateMDT") undeclaredPayload = .delivered (utf8 "StateMDT") json ∧
        ∀ d, ¬ ReadBack Json.plainFloating (Json.exactParse Json.plainFloating) json
          { decoded with obj := d } := by
  have created : arcalCreateAccessor Json.stateSchema (fnv1a32 "StateMDT") =
      some ⟨"StateMDT", Json.stateLayout, Json.layout_state, Json.stateLayout.fresh⟩ := by rfl
  have decodes : cdrDeserialize (some stateRegistry) (fnv1a32 "StateMDT") undeclaredPayload
      (⟨"StateMDT", Json.stateLayout, Json.layout_state, Json.stateLayout.fresh⟩ :
        Accessor Json.stateSchema) =
        (.ok (), ⟨"StateMDT", Json.stateLayout, Json.layout_state, ((7 : UInt32), ())⟩) := by rfl
  have keyed := Json.keyed_layout Json.stateSchema_distinctNames Json.layout_state
  refine ⟨⟨by rfl, by rfl⟩, Json.stateSchema_distinctNames, Json.plainFloating_standard, _, _,
    created, decodes, _, publishDecoded_eq created decodes, ?_⟩
  intro d back
  rw [readBack_iff (⟨"StateMDT", Json.stateLayout, Json.layout_state, ((7 : UInt32), ())⟩ :
    Accessor Json.stateSchema) _ d] at back
  have shown := (Json.Elem.rewritten_alike_iff Json.plainFloating_standard
    (Json.exactParse_exactly _) keyed _).mp back
  simp [Json.stateLayout, Json.Elem.Shows, Json.Members.Shows, Named, Declared] at shown

end Sample

end Arcal.Lacal
