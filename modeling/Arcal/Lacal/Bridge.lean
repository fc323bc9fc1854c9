import Arcal.Lacal.Publish

/-! From a writer on the bus to the text that clients get: between the two nothing that an
accessor shows is lost, and a message is dropped only if its class is not a global element's. -/

namespace Arcal.Json

open Schema

mutual
theorem Elem.choicesDeclared : (e : Elem) → (v : e.Impl) → Elem.Expressible e v →
    Cdr.Elem.ChoicesDeclared e v
  | .prim _, _, _ => by simp only [Cdr.Elem.ChoicesDeclared]
  | .enum _ _, _, _ => by simp only [Cdr.Elem.ChoicesDeclared]
  | .cls _ body, v, said => by
      simp only [Elem.Expressible] at said
      simp only [Cdr.Elem.ChoicesDeclared]
      exact Members.choicesDeclared body v said

theorem Members.choicesDeclared : (ms : Members) → (v : ms.Impl) → Members.Expressible ms v →
    Cdr.Members.ChoicesDeclared ms v
  | .nil, _, _ => by simp only [Cdr.Members.ChoicesDeclared]
  | .base _ body rest, v, said => by
      simp only [Members.Expressible] at said
      simp only [Cdr.Members.ChoicesDeclared]
      exact ⟨Members.choicesDeclared body v.1 said.1, Members.choicesDeclared rest v.2 said.2⟩
  | .choice variants rest, v, said => by
      simp only [Members.Expressible] at said
      simp only [Cdr.Members.ChoicesDeclared]
      exact ⟨said.1, Variants.choicesDeclared variants _ 1 v.1.store said.2.1,
        Members.choicesDeclared rest v.2 said.2.2⟩
  | .required _ elem rest, v, said => by
      simp only [Members.Expressible] at said
      simp only [Cdr.Members.ChoicesDeclared]
      exact ⟨Elem.choicesDeclared elem v.1 said.1, Members.choicesDeclared rest v.2 said.2⟩
  | .optional _ elem rest, v, said => by
      simp only [Members.Expressible] at said
      simp only [Cdr.Members.ChoicesDeclared]
      exact ⟨fun present => Elem.choicesDeclared elem v.1.value (said.1 present),
        Members.choicesDeclared rest v.2 said.2⟩
  | .list _ _ elem rest, v, said => by
      simp only [Members.Expressible] at said
      simp only [Cdr.Members.ChoicesDeclared]
      exact ⟨fun item inside => Elem.choicesDeclared elem item (said.1 item inside),
        Members.choicesDeclared rest v.2 said.2⟩

theorem Variants.choicesDeclared : (vs : Variants) → (ordinal index : Nat) → (v : vs.Impl) →
    Variants.Expressible vs ordinal index v → Cdr.Variants.ChoicesDeclared vs ordinal index v
  | .nil, _, _, _, _ => by simp only [Cdr.Variants.ChoicesDeclared]
  | .cons _ elem rest, ordinal, index, v, said => by
      simp only [Variants.Expressible] at said
      simp only [Cdr.Variants.ChoicesDeclared]
      exact ⟨fun chosen => Elem.choicesDeclared elem v.1 (said.1 chosen),
        Variants.choicesDeclared rest ordinal (index + 1) v.2 said.2⟩
end

end Arcal.Json

namespace Arcal.Lacal

open Schema
open Cdr (Accessor CdrRegistry Built)
open Dds (TaggedSample DdsWriter.write cdrDeserialize)
open Json (Floating JsonExternalizer.read_eq_ok)
open JsonText (Value)

def Global (schema : SchemaModel) (typeName : String) : Prop :=
  typeName ≠ "" ∧ ∃ element ∈ schema.globalElements, element.typeName = typeName

instance (schema : SchemaModel) (typeName : String) : Decidable (Global schema typeName) :=
  inferInstanceAs (Decidable (_ ∧ _))

/-- The types of global elements are classes, and those that are named alike in C++ are one. -/
structure GlobalClasses [CaseTable] (schema : SchemaModel) : Prop where
  classy : ∀ typeName, Global schema typeName →
    ∃ m, schema.find typeName = some m ∧ m.isSimpleRestriction = false
  apart : ∀ left right, Global schema left → Global schema right →
    xsdNameToCxx left = xsdNameToCxx right → left = right

section Factory

theorem factoryEntries_sound [CaseTable] {elems : List GlobalElementModel} {seen : List String}
    {tag : UInt32} {name : String} (entry : (tag, name) ∈ factoryEntries seen elems) :
    tag = fnv1a32 name ∧ name ≠ "" ∧ ∃ element ∈ elems, element.typeName = name := by
  induction elems generalizing seen with
  | nil => cases entry
  | cons first rest ih =>
      have later : ∀ {seen}, (tag, name) ∈ factoryEntries seen rest →
          tag = fnv1a32 name ∧ name ≠ "" ∧
            ∃ element ∈ first :: rest, element.typeName = name := by
        intro seen entry
        obtain ⟨isTag, named, element, inside, same⟩ := ih entry
        exact ⟨isTag, named, element, List.mem_cons_of_mem _ inside, same⟩
      simp only [factoryEntries] at entry
      split at entry
      · next fresh =>
        rcases List.mem_cons.mp entry with here | behind
        · injection here with isTag isName
          rw [isTag, isName]
          exact ⟨rfl, fresh.1, first, List.mem_cons_self, rfl⟩
        · exact later behind
      · exact later entry

theorem factoryEntries_complete [CaseTable] {elems : List GlobalElementModel} {seen : List String}
    {name : String} (named : name ≠ "") (fresh : xsdNameToCxx name ∉ seen)
    (apart : ∀ element ∈ elems, element.typeName ≠ "" →
      xsdNameToCxx element.typeName = xsdNameToCxx name → element.typeName = name)
    (there : ∃ element ∈ elems, element.typeName = name) :
    (fnv1a32 name, name) ∈ factoryEntries seen elems := by
  induction elems generalizing seen with
  | nil =>
      obtain ⟨_, inside, _⟩ := there
      cases inside
  | cons first rest ih =>
      by_cases here : first.typeName = name
      · simp only [factoryEntries, here]
        rw [if_pos ⟨named, fresh⟩]
        exact List.mem_cons_self
      · have behind : ∃ element ∈ rest, element.typeName = name := by
          obtain ⟨element, inside, same⟩ := there
          rcases List.mem_cons.mp inside with isFirst | later
          · rw [isFirst] at same
            exact absurd same here
          · exact ⟨element, later, same⟩
        have others := fun element inside => apart element (List.mem_cons_of_mem _ inside)
        simp only [factoryEntries]
        split
        · next made =>
          refine List.mem_cons_of_mem _ (ih ?_ others behind)
          intro again
          rcases List.mem_cons.mp again with same | before
          · exact here (apart first List.mem_cons_self made.1 same.symm)
          · exact fresh before
        · exact ih fresh others behind

variable {schema : SchemaModel} {reg : CdrRegistry}

/-- The factory knows the tag of a class if a global element has that class, and then it makes
accessors of no other. -/
theorem factory_lookup [CaseTable] (built : Built schema reg) (globals : GlobalClasses schema)
    (acc : Accessor schema) :
    (factoryEntries [] schema.globalElements).lookup acc.getAccessorType =
      if Global schema acc.typeName then some acc.typeName else none := by
  obtain ⟨m, found, classy⟩ := Schema.find_of_layout acc.laidOut
  have same : ∀ {name}, (acc.getAccessorType, name) ∈ factoryEntries [] schema.globalElements →
      name = acc.typeName ∧ Global schema name := by
    intro name entry
    obtain ⟨isTag, named, there⟩ := factoryEntries_sound entry
    obtain ⟨m', found', classy'⟩ := globals.classy name ⟨named, there⟩
    exact ⟨built.tag_injective found' found classy' classy isTag.symm, named, there⟩
  cases looked : (factoryEntries [] schema.globalElements).lookup acc.getAccessorType with
  | some name =>
      obtain ⟨before, after, split, _⟩ := List.lookup_eq_some_iff.mp looked
      have entry : (acc.getAccessorType, name) ∈ factoryEntries [] schema.globalElements := by
        rw [split]
        exact List.mem_append_right _ List.mem_cons_self
      obtain ⟨isName, global⟩ := same entry
      rw [isName] at global
      rw [if_pos global, isName]
  | none =>
      rw [if_neg]
      intro global
      have entry : (acc.getAccessorType, acc.typeName) ∈
          factoryEntries [] schema.globalElements :=
        factoryEntries_complete global.1 List.not_mem_nil
          (fun element inside named alike =>
            globals.apart _ _ ⟨named, element, inside, rfl⟩ global alike) global.2
      have unequal := List.lookup_eq_none_iff.mp looked _ entry
      simp at unequal

theorem arcalCreateAccessor_eq [CaseTable] (built : Built schema reg)
    (globals : GlobalClasses schema)
    (acc : Accessor schema) :
    arcalCreateAccessor schema acc.getAccessorType =
      if Global schema acc.typeName then some { acc with obj := acc.elem.fresh } else none := by
  rw [arcalCreateAccessor, factory_lookup built globals acc]
  split
  · have created : create schema acc.typeName = some { acc with obj := acc.elem.fresh } := by
      unfold create
      split
      · next elem laidOut =>
        have same : acc.elem = elem := Option.some.inj (acc.laidOut.symm.trans laidOut)
        subst same
        rfl
      · next missing =>
        rw [acc.laidOut] at missing
        cases missing
    exact created
  · rfl

end Factory

section Bridge

variable {schema : SchemaModel} {reg : CdrRegistry} {fp : Floating}
  {parse : Bytes → Except Exc Value}

theorem decodes_written (built : Built schema reg) {acc : Accessor schema}
    (limits : Cdr.Elem.InLimits acc.elem acc.obj)
    (declared : Cdr.Elem.ChoicesDeclared acc.elem acc.obj) :
    ∃ got : acc.elem.Impl, acc.elem.Agrees got acc.obj ∧
      cdrDeserialize (some reg) acc.getAccessorType (Cdr.Elem.serialize acc.elem acc.obj [])
        { acc with obj := acc.elem.fresh } = (.ok (), { acc with obj := got }) := by
  obtain ⟨m, found, classy⟩ := Schema.find_of_layout acc.laidOut
  have run := Cdr.Elem.deserializeAt_serialize acc.elem acc.obj acc.elem.fresh [] _ limits
    List.prefix_rfl
  have known := built.lookupByTag found classy
  refine ⟨_, (Cdr.Elem.overwrite_agrees_iff acc.elem acc.obj _).mpr
    ((Cdr.Elem.noStale_fresh_iff acc.elem _ _ acc.elem.fresh_isFresh).mpr declared), ?_⟩
  exact cdrDeserialize_ok known run

theorem write_sample (built : Built schema reg) (acc : Accessor schema) :
    DdsWriter.write (some reg) false acc =
      .ok ⟨acc.getAccessorType, Cdr.Elem.serialize acc.elem acc.obj []⟩ := Dds.write_run built acc

theorem publishDecoded_global [CaseTable] (built : Built schema reg)
    (globals : GlobalClasses schema)
    (fp : Floating) {acc : Accessor schema} (global : Global schema acc.typeName)
    (limits : Cdr.Elem.InLimits acc.elem acc.obj)
    (declared : Cdr.Elem.ChoicesDeclared acc.elem acc.obj) :
    publishDecoded schema fp (some reg) acc.getAccessorType
        (Cdr.Elem.serialize acc.elem acc.obj []) =
      .delivered (utf8 acc.typeName) (Json.Elem.serialize fp acc.elem acc.obj []) := by
  have created := arcalCreateAccessor_eq built globals acc
  rw [if_pos global] at created
  obtain ⟨got, agrees, decodes⟩ := decodes_written built limits declared
  rw [publishDecoded_eq created decodes]
  exact congrArg (Published.delivered (utf8 acc.typeName))
    (Json.Elem.serialize_agrees fp acc.elem agrees [])

/-- What the bridge makes of a message that a writer has published: the text that the JSON
externalizer writes of the same accessor, or nothing if the class is no global element's. -/
theorem publishDecoded_written [CaseTable] (built : Built schema reg)
    (globals : GlobalClasses schema)
    (fp : Floating) (acc : Accessor schema) (limits : Cdr.Elem.InLimits acc.elem acc.obj)
    (declared : Cdr.Elem.ChoicesDeclared acc.elem acc.obj) :
    ∃ sample json, DdsWriter.write (some reg) false acc = .ok sample ∧
      Json.JsonExternalizer.write fp (jsonHandlers schema) acc [] = .ok json ∧
      publishDecoded schema fp (some reg) sample.tag sample.data =
        if Global schema acc.typeName then .delivered (utf8 acc.typeName) json
        else .unknownTag := by
  refine ⟨_, _, write_sample built acc, write_object acc, ?_⟩
  by_cases global : Global schema acc.typeName
  · rw [if_pos global, publishDecoded_global built globals fp global limits declared]
  · have created := arcalCreateAccessor_eq built globals acc
    rw [if_neg global] at created ⊢
    simp only [publishDecoded, created]

/-- A message goes over the bus as CDR and to a client as JSON, and is read there, whatever
the client's accessor held, as what was written: exactly when each enum item that it shows is
the first of its name. -/
theorem written_read_back_iff [CaseTable] (built : Built schema reg)
    (globals : GlobalClasses schema)
    (names : Json.DistinctNames schema) (conforming : Json.Conforming fp parse)
    (acc : Accessor schema) (global : Global schema acc.typeName)
    (limits : Cdr.Elem.InLimits acc.elem acc.obj) (floatless : Json.Elem.Floatless acc.elem)
    (expressible : Json.Elem.Expressible acc.elem acc.obj) (d : acc.elem.Impl) :
    (∃ sample json got, DdsWriter.write (some reg) false acc = .ok sample ∧
      publishDecoded schema fp (some reg) sample.tag sample.data =
        .delivered (utf8 acc.typeName) json ∧
      Json.JsonExternalizer.read fp parse (jsonHandlers schema) json { acc with obj := d } =
        (.ok (), { acc with obj := got }) ∧
      acc.elem.Agrees got acc.obj) ↔
    Json.Elem.FirstNamed acc.elem acc.obj := by
  obtain ⟨m, found, classy⟩ := Schema.find_of_layout acc.laidOut
  have keyed := Json.keyed_layout names acc.laidOut
  have written := write_sample built acc
  have published := publishDecoded_global built globals fp global limits
    (Json.Elem.choicesDeclared acc.elem acc.obj expressible)
  have parsed := Json.parse_serialize fp conforming keyed floatless expressible
  have filled := Json.Elem.deserialize_tree fp acc.elem keyed floatless acc.obj expressible
    acc.elem.fresh []
  have back := (JsonExternalizer.read_eq_ok fp { acc with obj := d } found classy).mpr
    ⟨_, _, parsed, filled, rfl⟩
  rw [← Json.Elem.reread_agrees_iff acc.elem acc.obj acc.elem.fresh expressible
    acc.elem.fresh_isFresh]
  constructor
  · rintro ⟨sample', json', got, written', published', read, agrees⟩
    rw [written] at written'
    injection written' with same
    subst same
    rw [published] at published'
    injection published' with _ same
    subst same
    change Json.JsonExternalizer.read fp parse (Json.registerAllJsonHandlers _) _ _ = _ at read
    rw [back] at read
    injection read with _ same
    injection same with _ _ same
    rw [same]
    exact agrees
  · intro agrees
    exact ⟨_, _, _, written, published, back, agrees⟩

end Bridge

section Sample

attribute [local instance] latinCase

theorem sampleSchema_globalClasses : GlobalClasses sampleSchema := by
  have known : ∀ typeName, Global sampleSchema typeName →
      typeName = "HeaderType" ∨ typeName = "TrackMDT" := by
    rintro typeName ⟨_, element, inside, rfl⟩
    simp only [sampleSchema, List.mem_cons, List.not_mem_nil, or_false] at inside
    rcases inside with rfl | rfl
    · simp
    · simp
  constructor
  · intro typeName global
    rcases known typeName global with rfl | rfl
    · exact ⟨_, rfl, rfl⟩
    · exact ⟨_, rfl, rfl⟩
  · intro left right isLeft isRight alike
    rcases known left isLeft with rfl | rfl
    · rcases known right isRight with rfl | rfl
      · rfl
      · exact absurd alike (by decide)
    · rcases known right isRight with rfl | rfl
      · exact absurd alike (by decide)
      · rfl

theorem publishDecoded_written_track :
    ∃ sample json, DdsWriter.write (some Cdr.sampleRegistry) false
        (Dds.trackMessage.accessor sampleTrack) = .ok sample ∧
      publishDecoded sampleSchema Json.plainFloating (some Cdr.sampleRegistry) sample.tag
        sample.data = .delivered (utf8 "TrackMDT") json := by
  obtain ⟨sample, json, written, _, published⟩ := publishDecoded_written Cdr.sampleSchema_built
    sampleSchema_globalClasses Json.plainFloating (Dds.trackMessage.accessor sampleTrack)
    Cdr.sampleTrack_inLimits Cdr.sampleTrack_choicesDeclared
  rw [if_pos (by decide)] at published
  exact ⟨sample, json, written, published⟩

theorem written_read_back_header :
    ∃ sample json got, DdsWriter.write (some Cdr.sampleRegistry) false
        (Dds.headerMessage.accessor unlabelledHeader) = .ok sample ∧
      publishDecoded sampleSchema Json.sampleFloating (some Cdr.sampleRegistry) sample.tag
        sample.data = .delivered (utf8 "HeaderType") json ∧
      Json.JsonExternalizer.read Json.sampleFloating Json.sampleParse (jsonHandlers sampleSchema)
        json (Dds.headerMessage.accessor (labelledHeader (utf8 "old"))) =
          (.ok (), Dds.headerMessage.accessor got) ∧
      headerLayout.Agrees got unlabelledHeader := by
  refine (written_read_back_iff Cdr.sampleSchema_built sampleSchema_globalClasses
    Json.sampleSchema_distinctNames Json.sampleParse_conforming
    (Dds.headerMessage.accessor unlabelledHeader) (by decide) Dds.unlabelledHeader_inLimits ?_ ?_
    (labelledHeader (utf8 "old"))).mpr ?_
  · simp [Dds.MessageType.accessor, Dds.headerMessage, headerLayout, headerMembers,
      Json.Elem.Floatless, Json.Members.Floatless, Json.Exact]
  · simp [Dds.MessageType.accessor, Dds.headerMessage, headerLayout, headerMembers,
      unlabelledHeader, Json.Elem.Expressible, Json.Members.Expressible, Json.Encodable]
  · simp [Dds.MessageType.accessor, Dds.headerMessage, headerLayout, headerMembers,
      unlabelledHeader, Json.Elem.FirstNamed, Json.Members.FirstNamed]

end Sample

end Arcal.Lacal
