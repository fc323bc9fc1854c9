import Mathlib
import Arcal.Compiler.Selection
import Arcal.Json.Externalizer

/-! What one run of the schema compiler writes for the types it selects: the constants, the
handlers of both codecs and the two functions that register them. -/

namespace Arcal.Compiler

open Schema Worklist
open Cdr (CdrRegistry checkTags registerAllCdrHandlers)
open Json (JsonRegistry)

/-- A `lookupByTag` or `lookup` in a generated handler, with the type it is meant for. -/
inductive Call
  | base (typeName : String)
  | value (typeName : String)
  deriving DecidableEq, Repr

def Call.typeName : Call → String
  | .base typeName => typeName
  | .value typeName => typeName

/-- The constant in `accessorType.h` that a CDR handler names. A base is named as the schema
writes it, anything else by its class. -/
def Call.constant [CaseTable] : Call → String
  | .base typeName => firstLetterToLower typeName
  | .value typeName => firstLetterToLower (xsdNameToCxx typeName)

inductive ValueCode
  | inline (cxxType : CxxType)
  | call (call : Call)
  deriving DecidableEq, Repr

inductive MemberCode
  | base (call : Call)
  | choice (variants : List (String × ValueCode))
  | list (name : String) (item : ValueCode)
  | plain (name : String) (cxxType : CxxType)
  | optional (name : String) (value : ValueCode)
  | required (name : String) (value : ValueCode)
  deriving DecidableEq, Repr

/-- A name the schema does not declare is coded by a call as well. -/
def valueCode (schema : SchemaModel) (typeName : String) : ValueCode :=
  match cxxPrimitiveMap.lookup typeName with
  | some cxxType => .inline cxxType
  | none =>
    match (schema.find typeName).map TypeModel.kind with
    | some (.simpleRestriction base) => .inline (restrictionCxxBaseType typeName base)
    | _ => .call (.value typeName)

def fieldCode (schema : SchemaModel) (field : FieldModel) : MemberCode :=
  match field.listKind with
  | some _ => .list field.name (valueCode schema field.typeName)
  | none =>
      if field.isUuid then .plain field.name .uuid
      else if field.optional then .optional field.name (valueCode schema field.typeName)
      else .required field.name (valueCode schema field.typeName)

def choiceCode (schema : SchemaModel) (choice : ChoiceModel) : MemberCode :=
  .choice (choice.variants.map fun variant => (variant.name, valueCode schema variant.typeName))

/-- The bodies that `CDR_CPP_TEMPLATE` and `JSON_CPP_TEMPLATE` give a type, for writing and for
reading: all four branch alike. An enumeration codes its ordinal or its name, a simple
restriction gets no handler. -/
def handlerCode (schema : SchemaModel) (m : TypeModel) : List MemberCode :=
  match m.kind with
  | .complex fields choices baseType =>
      (baseName baseType).toList.map (fun name => .base (.base name)) ++
        choices.map (choiceCode schema) ++ fields.map (fieldCode schema)
  | _ => []

def ValueCode.calls : ValueCode → List Call
  | .inline _ => []
  | .call made => [made]

def MemberCode.calls : MemberCode → List Call
  | .base made => [made]
  | .choice variants => variants.flatMap fun variant => variant.2.calls
  | .list _ item => item.calls
  | .plain _ _ => []
  | .optional _ value => value.calls
  | .required _ value => value.calls

def handlerCalls (schema : SchemaModel) (m : TypeModel) : List Call :=
  (handlerCode schema m).flatMap MemberCode.calls

/-- What `main` writes. The handler files are named by class; a later one replaces an
earlier one. -/
structure Output where
  globalElements : List GlobalElementModel
  typeModels : List TypeModel
  accessorTypes : List (String × UInt32)
  cdrEntries : List (String × String × UInt32)
  jsonEntries : List (String × String)
  sources : List (String × TypeModel)
  deriving DecidableEq, Repr

def concreteTypes (typeModels : List TypeModel) : List TypeModel :=
  typeModels.filter fun m => !m.isSimpleRestriction

def renderAccessorTypeH [CaseTable] (typeModels : List TypeModel) : List (String × UInt32) :=
  typeModels.map fun m => (firstLetterToLower (cxxName m), fnv1a32 m.name)

def cdrTypeEntries [CaseTable] (typeModels : List TypeModel) : List (String × String × UInt32) :=
  (concreteTypes typeModels).map fun m => (cxxName m, m.name, fnv1a32 m.name)

def renderCdrRegisterAll [CaseTable] (typeModels : List TypeModel) :
    Except Bytes (List (String × String × UInt32)) := do
  checkTags [] ((cdrTypeEntries typeModels).map Prod.snd)
  return cdrTypeEntries typeModels

def renderJsonRegisterAll [CaseTable] (typeModels : List TypeModel) : List (String × String) :=
  (concreteTypes typeModels).map fun m => (cxxName m, m.name)

def handlerSources [CaseTable] (typeModels : List TypeModel) : List (String × TypeModel) :=
  ((concreteTypes typeModels).map fun m => (cxxName m, m)).reverse

def selected [CaseTable] (schema : SchemaModel) (config : Option SubsetConfig) :
    Except Bytes (List GlobalElementModel × List TypeModel) :=
  match config with
  | none => .ok (schema.globalElements, schema.types)
  | some config => selectSubset schema config

def compile [CaseTable] (schema : SchemaModel) (config : Option SubsetConfig) :
    Except Bytes Output := do
  let (globalElements, typeModels) ← selected schema config
  let cdrEntries ← renderCdrRegisterAll typeModels
  return {
    globalElements
    typeModels
    accessorTypes := renderAccessorTypeH typeModels
    cdrEntries
    jsonEntries := renderJsonRegisterAll typeModels
    sources := handlerSources typeModels }

namespace Output

variable (output : Output)

/-- `register_all_cdr_handlers`, each handler known by its class. -/
def cdrRegistry : Except Exc CdrRegistry :=
  registerAllCdrHandlers ⟨[]⟩ (output.cdrEntries.map fun (name, _, tag) => (name, tag))

def jsonRegistry : JsonRegistry :=
  output.jsonEntries.foldl (fun reg (name, xsdName) => reg.registerHandler xsdName name) ⟨[]⟩

/-- The value of a constant. One that `accessorType.h` has twice is a redefinition and names
nothing. -/
def constantTag (constant : String) : Option UInt32 :=
  match output.accessorTypes.filter fun entry => entry.1 = constant with
  | [entry] => some entry.2
  | _ => none

/-- The handler a call in the CDR code gets, if its constant exists and its tag is known. -/
def lookupCdr [CaseTable] (cdr : CdrRegistry) (call : Call) : Option String := do
  let tag ← output.constantTag call.constant
  (cdr.lookupByTag tag).toOption

def lookupJson (call : Call) : Option String := (output.jsonRegistry.lookup call.typeName).toOption

def calls (schema : SchemaModel) (handler : String) : List Call :=
  ((output.sources.lookup handler).map (handlerCalls schema)).getD []

end Output

/-- A handler may come to a call, itself or in the handlers it calls. Which calls it makes
depends on the value or the input; any of them may be made. -/
inductive MayCall (calls : String → List Call) (lookup : Call → Option String) :
    String → Call → Prop
  | own {handler : String} {call : Call} (member : call ∈ calls handler) :
      MayCall calls lookup handler call
  | nested {handler inner : String} {call deep : Call} (member : call ∈ calls handler)
      (found : lookup call = some inner) (deeper : MayCall calls lookup inner deep) :
      MayCall calls lookup handler deep

/-- The schemas the templates are written for. -/
structure Supported [CaseTable] (schema : SchemaModel) : Prop where
  elements : ∀ m ∈ schema.types, ∀ name ∈ elementTypes m,
    name ∈ primitiveTypes ∨ (schema.find name).isSome
  bases : ∀ m ∈ schema.types, ∀ name, m.baseType = some name →
    name ∈ primitiveTypes ∨ ∃ base, schema.find name = some base ∧ base.isComplex
  classNames : (schema.types.map cxxName).Nodup

structure Closed (schema : SchemaModel) (typeModels : List TypeModel) : Prop where
  sublist : typeModels.Sublist schema.types
  follows : ∀ m ∈ typeModels, ∀ name ∈ references schema m, ∃ target ∈ typeModels,
    target.name = name

section Selection

variable {schema : SchemaModel}

theorem references_declared {m : TypeModel} {name : String} (refers : name ∈ references schema m) :
    (schema.find name).isSome := by
  simp only [references, List.mem_append, List.mem_filter, decide_eq_true_eq] at refers
  rcases refers with ⟨_, _, declared⟩ | ⟨_, declared⟩
  · exact declared
  · exact declared

theorem find_target {name : String} (declared : (schema.find name).isSome) :
    ∃ target ∈ schema.types, target.name = name ∧ schema.find name = some target := by
  rcases Option.isSome_iff_exists.mp declared with ⟨target, found⟩
  exact ⟨target, SchemaModel.find_mem found, SchemaModel.find_name found, found⟩

theorem closed_all (schema : SchemaModel) : Closed schema schema.types where
  sublist := List.Sublist.refl _
  follows := by
    intro m member name refers
    rcases find_target (references_declared refers) with ⟨target, among, named, _⟩
    exact ⟨target, among, named⟩

theorem closed_collected (globals : List GlobalElementModel) (roots : List String) :
    Closed schema
      (schema.types.filter fun m => m.name ∈ collectRequiredTypeNames schema globals roots) where
  sublist := List.filter_sublist
  follows := by
    intro m member name refers
    rw [List.mem_filter, decide_eq_true_eq] at member
    rcases find_target (references_declared refers) with ⟨target, among, named, _⟩
    refine ⟨target, List.mem_filter.mpr ⟨among, ?_⟩, named⟩
    rw [decide_eq_true_eq, named]
    have node : name ∈ (typeDependencies schema).nodes := named ▸ List.mem_map_of_mem among
    have edge : name ∈ (typeDependencies schema).next m.name := by
      simp only [typeDependencies, schema.find_of_mem member.1, Option.map_some, Option.getD_some]
      exact refers
    exact Dependencies.collect_closed nofun member.2 edge node

theorem closed_selected [CaseTable] {config : Option SubsetConfig}
    {globals : List GlobalElementModel}
    {typeModels : List TypeModel} (run : selected schema config = .ok (globals, typeModels)) :
    Closed schema typeModels := by
  cases config with
  | none =>
      cases run
      exact closed_all schema
  | some config =>
      rcases selectSubset_ok.mp run with ⟨selectedGlobals, selectedTypeRoots, _, _, rfl, rfl⟩
      exact closed_collected selectedGlobals selectedTypeRoots

end Selection

section Names

theorem localName_of_local {name : String} (isLocal : ':' ∉ name.toList) :
    localName name = name := by
  have keeps : name.toList.reverse.takeWhile (· ≠ ':') = name.toList.reverse := by
    rw [List.takeWhile_eq_self_iff]
    intro c member
    rw [List.mem_reverse] at member
    rw [decide_eq_true_eq]
    intro colon
    exact isLocal (colon ▸ member)
  rw [localName, keeps, List.reverse_reverse, String.ofList_toList]

variable [CaseTable] {name : String}

theorem xsdNameToCxx_ascii (ascii : ∀ c ∈ (localName name).toList.head?, c.val < 128) :
    xsdNameToCxx name = String.ofList ((localName name).toList.modifyHead Char.toUpper) := by
  unfold xsdNameToCxx
  cases letters : (localName name).toList with
  | nil => exact String.toList_inj.mp (letters.trans String.toList_ofList.symm)
  | cons head rest =>
      simp only [CaseTable.upper_ascii head (ascii head (by simp [letters])), List.modifyHead_cons,
        List.singleton_append]

theorem constant_ascii (ascii : ∀ c ∈ (localName name).toList.head?, c.val < 128) :
    firstLetterToLower (xsdNameToCxx name) =
      String.ofList ((localName name).toList.modifyHead Char.toLower) := by
  rw [xsdNameToCxx_ascii ascii, firstLetterToLower, String.toList_ofList]
  cases letters : (localName name).toList with
  | nil => rfl
  | cons head rest =>
      have small : head.toUpper.val < 128 := by
        have given := ascii head (by simp [letters])
        simp only [Char.toUpper]
        split
        · grind [UInt32.toNat_add]
        · exact given
      simp only [List.modifyHead_cons, CaseTable.lower_ascii _ small, List.singleton_append,
        Char.toLower_toUpper_eq_toLower]

theorem xsdNameToCxx_of_constant {other : String}
    (ascii : ∀ c ∈ (localName name).toList.head?, c.val < 128)
    (ascii' : ∀ c ∈ (localName other).toList.head?, c.val < 128)
    (same : firstLetterToLower (xsdNameToCxx name) = firstLetterToLower (xsdNameToCxx other)) :
    xsdNameToCxx name = xsdNameToCxx other := by
  have restore : ∀ letters : List Char, letters.modifyHead Char.toUpper =
      (letters.modifyHead Char.toLower).modifyHead Char.toUpper := by
    intro letters
    cases letters with
    | nil => rfl
    | cons head rest => simp
  rw [constant_ascii ascii, constant_ascii ascii', String.ofList_inj] at same
  rw [xsdNameToCxx_ascii ascii, xsdNameToCxx_ascii ascii', restore, same, ← restore]

end Names

section Calls

variable {schema : SchemaModel} {m : TypeModel} {call : Call}

/-- A type that is coded by a handler, as far as the name tells. -/
def Handled (schema : SchemaModel) (typeName : String) : Prop :=
  typeName ∉ primitiveTypes ∧
    ∀ target, schema.find typeName = some target → target.isSimpleRestriction = false

theorem mem_valueCode_calls {typeName : String} :
    call ∈ (valueCode schema typeName).calls ↔ call = .value typeName ∧ Handled schema typeName := by
  unfold valueCode Handled
  rw [mem_primitiveTypes_iff]
  cases primitive : cxxPrimitiveMap.lookup typeName with
  | some cxxType => simp [ValueCode.calls]
  | none =>
      cases found : schema.find typeName with
      | none => simp [ValueCode.calls]
      | some target =>
          cases kind : target.kind with
          | simpleRestriction base => simp [ValueCode.calls, TypeModel.isSimpleRestriction, kind]
          | complex fields choices baseType =>
              simp [ValueCode.calls, TypeModel.isSimpleRestriction, kind]
          | enumeration enumValues => simp [ValueCode.calls, TypeModel.isSimpleRestriction, kind]

theorem uuid_unhandled {field : FieldModel} (uuid : field.isUuid = true) :
    ¬ Handled schema field.typeName := by
  intro handled
  rw [FieldModel.isUuid, beq_iff_eq] at uuid
  exact handled.1 (uuid ▸ by decide)

theorem fieldCode_calls (field : FieldModel) :
    call ∈ (fieldCode schema field).calls ↔ call ∈ (valueCode schema field.typeName).calls := by
  unfold fieldCode
  split
  · rfl
  · split
    · next uuid =>
      rw [mem_valueCode_calls]
      constructor
      · intro none'
        cases none'
      · intro made
        exact absurd made.2 (uuid_unhandled uuid)
    · split
      · rfl
      · rfl

theorem mem_handlerCalls : call ∈ handlerCalls schema m ↔
    (∃ name, call = .base name ∧ baseName m.baseType = some name) ∨
      ∃ name ∈ elementTypes m, call = .value name ∧ Handled schema name := by
  simp only [handlerCalls, handlerCode, TypeModel.baseType, elementTypes]
  cases kind : m.kind with
  | enumeration enumValues => simp [baseName]
  | simpleRestriction base => simp [baseName]
  | complex fields choices baseType =>
      have bases : call ∈ ((baseName baseType).toList.map fun name =>
          MemberCode.base (.base name)).flatMap MemberCode.calls ↔
          ∃ name, call = .base name ∧ baseName baseType = some name := by
        cases baseName baseType with
        | none => simp
        | some name => simp [MemberCode.calls]
      have variants : call ∈ (choices.map (choiceCode schema)).flatMap MemberCode.calls ↔
          ∃ name ∈ choices.flatMap (fun choice => choice.variants.map FieldModel.typeName),
            call = .value name ∧ Handled schema name := by
        simp [choiceCode, MemberCode.calls, mem_valueCode_calls, and_assoc]
      have members : call ∈ (fields.map (fieldCode schema)).flatMap MemberCode.calls ↔
          ∃ name ∈ fields.map FieldModel.typeName, call = .value name ∧ Handled schema name := by
        simp [fieldCode_calls, mem_valueCode_calls]
      simp only [List.flatMap_append, List.mem_append, bases, variants, members, or_and_right,
        exists_or]
      rw [or_assoc, or_comm (a := ∃ name ∈ choices.flatMap _, _)]

/-- Every call a selected type's handlers make is for a selected type that has handlers. -/
theorem call_target [CaseTable] (supported : Supported schema) {typeModels : List TypeModel}
    (closed : Closed schema typeModels) (member : m ∈ typeModels)
    (makes : call ∈ handlerCalls schema m) :
    ∃ target ∈ concreteTypes typeModels, schema.find call.typeName = some target := by
  have declared := closed.sublist.subset member
  -- a declared type that is referred to is selected
  have selects : ∀ target, schema.find call.typeName = some target →
      call.typeName ∈ references schema m → target.isSimpleRestriction = false →
      target ∈ concreteTypes typeModels := by
    intro target found refers classy
    rcases closed.follows m member call.typeName refers with ⟨chosen, among, named⟩
    have same : chosen = target := by
      have hit := schema.find_of_mem (closed.sublist.subset among)
      rw [named, found] at hit
      exact (Option.some.inj hit).symm
    exact List.mem_filter.mpr ⟨same ▸ among, by rw [classy]; rfl⟩
  rcases mem_handlerCalls.mp makes with ⟨name, rfl, based⟩ | ⟨name, element, rfl, handled⟩
  · rcases Option.filter_eq_some_iff.mp based with ⟨hasBase, proper⟩
    rw [decide_eq_true_eq] at proper
    rcases supported.bases m declared name hasBase with primitive | ⟨target, found, complex⟩
    · exact absurd primitive proper.2
    · have classy : target.isSimpleRestriction = false := by
        cases kind : target.kind with
        | complex fields choices baseType => simp [TypeModel.isSimpleRestriction, kind]
        | enumeration enumValues => simp [TypeModel.isComplex, kind] at complex
        | simpleRestriction base => simp [TypeModel.isComplex, kind] at complex
      refine ⟨target, selects target found ?_ classy, found⟩
      have kept : modelBaseType m = some name := by
        cases kind : m.kind with
        | complex fields choices baseType =>
            simpa [TypeModel.baseType, modelBaseType, kind] using hasBase
        | enumeration enumValues => simp [TypeModel.baseType, kind] at hasBase
        | simpleRestriction base => simp [TypeModel.baseType, kind] at hasBase
      apply List.mem_append_left
      simp [kept, Call.typeName, proper.1, found]
  · rcases supported.elements m declared name element with primitive | known
    · exact absurd primitive handled.1
    · rcases Option.isSome_iff_exists.mp known with ⟨target, found⟩
      refine ⟨target, selects target found ?_ (handled.2 target found), found⟩
      apply List.mem_append_right
      exact List.mem_filter.mpr ⟨element, known⟩

theorem classy_of_calls (makes : call ∈ handlerCalls schema m) :
    m.isSimpleRestriction = false := by
  cases kind : m.kind with
  | simpleRestriction base => simp [handlerCalls, handlerCode, kind] at makes
  | complex fields choices baseType => simp [TypeModel.isSimpleRestriction, kind]
  | enumeration enumValues => simp [TypeModel.isSimpleRestriction, kind]

/-- Exactly one of the types has the constant, and its tag is that of the type that is meant. -/
def Owned [CaseTable] (typeModels : List TypeModel) (constant typeName : String) : Prop :=
  ∃ owner ∈ typeModels, fnv1a32 owner.name = fnv1a32 typeName ∧
    firstLetterToLower (cxxName owner) = constant ∧
    ∀ other ∈ typeModels, firstLetterToLower (cxxName other) = constant → other = owner

/-- Every base has the constant that the base as it is written would have, every type of a member
the constant of its class, and no other selected type has these. -/
structure ConstantsApart [CaseTable] (schema : SchemaModel) (typeModels : List TypeModel) :
    Prop where
  bases : ∀ m ∈ typeModels, ∀ name, baseName m.baseType = some name →
    Owned typeModels (firstLetterToLower name) name
  elements : ∀ m ∈ typeModels, ∀ name ∈ elementTypes m, Handled schema name →
    Owned typeModels (firstLetterToLower (xsdNameToCxx name)) name

theorem constantsApart_iff [CaseTable] {typeModels : List TypeModel} :
    ConstantsApart schema typeModels ↔ ∀ m ∈ typeModels, ∀ call ∈ handlerCalls schema m,
      Owned typeModels call.constant call.typeName := by
  constructor
  · intro apart m member call makes
    rcases mem_handlerCalls.mp makes with ⟨name, rfl, based⟩ | ⟨name, element, rfl, handled⟩
    · exact apart.bases m member name based
    · exact apart.elements m member name element handled
  · intro owned
    constructor
    · intro m member name based
      exact owned m member (.base name) (mem_handlerCalls.mpr (.inl ⟨name, rfl, based⟩))
    · intro m member name element handled
      exact owned m member (.value name)
        (mem_handlerCalls.mpr (.inr ⟨name, element, rfl, handled⟩))

/-- Names that begin with ASCII letters keep the constants apart. -/
theorem constantsApart_of_ascii [CaseTable] (supported : Supported schema)
    {typeModels : List TypeModel}
    (closed : Closed schema typeModels)
    (localBases : ∀ m ∈ schema.types, ∀ name, m.baseType = some name → ':' ∉ name.toList)
    (ascii : ∀ m ∈ schema.types, ∀ c ∈ (localName m.name).toList.head?, c.val < 128) :
    ConstantsApart schema typeModels := by
  apply constantsApart_iff.mpr
  intro m member call makes
  rcases call_target supported closed member makes with ⟨target, isTarget, found⟩
  have declared := SchemaModel.find_mem found
  have named : target.name = call.typeName := SchemaModel.find_name found
  have constant : firstLetterToLower (cxxName target) = call.constant := by
    rw [cxxName, named]
    rcases mem_handlerCalls.mp makes with ⟨name, rfl, based⟩ | ⟨name, _, rfl, _⟩
    · have small := ascii target declared
      rw [named] at small
      have isLocal := localName_of_local (localBases m (closed.sublist.subset member) name
        (baseName_eq_some based).1)
      simp only [Call.typeName, Call.constant] at small ⊢
      rw [constant_ascii small]
      rw [isLocal] at small ⊢
      unfold firstLetterToLower
      cases letters : name.toList with
      | nil => exact String.toList_inj.mp (String.toList_ofList.trans letters.symm)
      | cons head rest =>
          simp only [CaseTable.lower_ascii head (small head (by simp [letters])),
            List.modifyHead_cons, List.singleton_append]
    · rfl
  refine ⟨target, (List.mem_filter.mp isTarget).1, by rw [named], constant, ?_⟩
  intro other among same
  have among' := closed.sublist.subset among
  apply List.inj_on_of_nodup_map supported.classNames among' declared
  exact xsdNameToCxx_of_constant (ascii other among') (ascii target declared)
    (same.trans constant.symm)

end Calls

section Registration

variable {schema : SchemaModel} {typeModels : List TypeModel}

theorem lookup_of_mem {κ β : Type} [DecidableEq κ] {entries : List (κ × β)}
    (distinct : (entries.map Prod.fst).Nodup) {key : κ} {value : β}
    (member : (key, value) ∈ entries) : entries.lookup key = some value := by
  have table : Table.find ⟨entries, distinct⟩ key = some value :=
    Table.find_eq_some_iff.mpr member
  exact table

theorem mem_of_concrete {m : TypeModel} (concrete : m ∈ concreteTypes typeModels) :
    m ∈ typeModels ∧ m.isSimpleRestriction = false := by
  rcases List.mem_filter.mp concrete with ⟨member, classy⟩
  exact ⟨member, by simpa using classy⟩

theorem nodup_concrete {β : Type} {nameOf : TypeModel → β}
    (distinct : (schema.types.map nameOf).Nodup) (sublist : typeModels.Sublist schema.types) :
    ((concreteTypes typeModels).map nameOf).Nodup := by
  apply List.Nodup.sublist _ distinct
  exact (List.filter_sublist.trans sublist).map nameOf

theorem nodup_tags [CaseTable] (sublist : typeModels.Sublist schema.types)
    (checked : checkTags [] ((cdrTypeEntries typeModels).map Prod.snd) = .ok ()) :
    ((cdrTypeEntries typeModels).map fun entry => entry.2.2).Nodup := by
  have apart := (Cdr.checkTags_eq_ok_iff.mp checked).2
  have names : (concreteTypes typeModels).Pairwise fun first later => first.name ≠ later.name := by
    have distinct := nodup_concrete schema.nodupNames sublist
    rwa [List.Nodup, List.pairwise_map] at distinct
  simp only [cdrTypeEntries, List.map_map, List.pairwise_map, Function.comp_apply] at apart
  simp only [cdrTypeEntries, List.map_map, List.Nodup, List.pairwise_map, Function.comp_apply]
  exact (apart.and names).imp fun both same => both.2 (both.1 same)

theorem lookup_source [CaseTable] (supported : Supported schema)
    (sublist : typeModels.Sublist schema.types)
    {m : TypeModel} (concrete : m ∈ concreteTypes typeModels) :
    (handlerSources typeModels).lookup (cxxName m) = some m := by
  have distinct : ((concreteTypes typeModels).map cxxName).Nodup :=
    nodup_concrete supported.classNames sublist
  apply lookup_of_mem
  · simp only [handlerSources, List.map_reverse, List.nodup_reverse, List.map_map,
      Function.comp_def]
    exact distinct
  · exact List.mem_reverse.mpr (List.mem_map.mpr ⟨m, concrete, rfl⟩)

theorem filter_eq_singleton_iff {β : Type} {entries : List β} (distinct : entries.Nodup)
    {holds : β → Bool} {owner : β} : entries.filter holds = [owner] ↔
      owner ∈ entries ∧ holds owner = true ∧ ∀ other ∈ entries, holds other = true →
        other = owner := by
  have member : ∀ other, other ∈ entries.filter holds ↔ other ∈ entries ∧ holds other = true :=
    fun other => List.mem_filter
  constructor
  · intro single
    rw [single] at member
    simp only [List.mem_singleton] at member
    have own := (member owner).mp rfl
    exact ⟨own.1, own.2, fun other inside has => (member other).mpr ⟨inside, has⟩⟩
  · intro given
    apply List.perm_singleton.mp
    rw [List.perm_ext_iff_of_nodup (distinct.filter _) (List.nodup_singleton _)]
    intro other
    rw [member, List.mem_singleton]
    constructor
    · intro both
      exact given.2.2 other both.1 both.2
    · rintro rfl
      exact ⟨given.1, given.2.1⟩

theorem jsonRegistry_table (entries : List (String × String)) (reg : JsonRegistry) :
    (entries.foldl (fun reg (name, xsdName) => reg.registerHandler xsdName name) reg).table =
      (entries.map Prod.swap).reverse ++ reg.table := by
  induction entries generalizing reg with
  | nil => rfl
  | cons entry rest ih =>
      rcases entry with ⟨name, xsdName⟩
      rw [List.foldl_cons, ih]
      simp [JsonRegistry.registerHandler]

end Registration

section Runs

variable {schema : SchemaModel} {config : Option SubsetConfig} {output : Output}

theorem compile_ok [CaseTable] (compiled : compile schema config = .ok output) :
    selected schema config = .ok (output.globalElements, output.typeModels) ∧
      checkTags [] ((cdrTypeEntries output.typeModels).map Prod.snd) = .ok () ∧
      output.accessorTypes = renderAccessorTypeH output.typeModels ∧
      output.cdrEntries = cdrTypeEntries output.typeModels ∧
      output.jsonEntries = renderJsonRegisterAll output.typeModels ∧
      output.sources = handlerSources output.typeModels := by
  unfold compile renderCdrRegisterAll at compiled
  cases run : selected schema config with
  | error message => simp [run, bind, Except.bind] at compiled
  | ok both =>
      rcases both with ⟨globalElements, typeModels⟩
      cases checked : checkTags [] ((cdrTypeEntries typeModels).map Prod.snd) with
      | error message => simp [run, checked, bind, Except.bind] at compiled
      | ok u =>
          simp only [run, checked, bind, Except.bind, pure, Except.pure, Except.ok.injEq]
            at compiled
          rw [← compiled]
          exact ⟨rfl, checked, rfl, rfl, rfl, rfl⟩

/-- The run over the whole schema gives the program that the codecs are modelled in. -/
theorem built_of_compile [CaseTable] (compiled : compile schema none = .ok output) :
    ∃ reg, Cdr.Built schema reg := by
  rcases compile_ok compiled with ⟨run, checked, _⟩
  injection run with both
  injection both with _ all
  have entries : (cdrTypeEntries output.typeModels).map Prod.snd = Cdr.typeEntries schema := by
    rw [← all, cdrTypeEntries, List.map_map]
    rfl
  rw [entries] at checked
  apply Cdr.exists_built
  simp only [Cdr.renderCdrRegisterAll, checked]

/-- What holds of the calls of a handler and of the handlers these find holds of every call
that may be made. -/
theorem MayCall.hits {calls : String → List Call} {lookup : Call → Option String}
    {hit : Call → Prop} (handled : String → Prop)
    (own : ∀ handler, handled handler → ∀ call ∈ calls handler,
      hit call ∧ ∀ inner, lookup call = some inner → handled inner)
    {handler : String} {call : Call} (may : MayCall calls lookup handler call)
    (start : handled handler) : hit call := by
  induction may with
  | own member => exact (own _ start _ member).1
  | nested member found deeper ih => exact ih ((own _ start _ member).2 _ found)

/-- The constant exists, its tag is registered, and the handler under it is the one that was
generated for the type the call is meant for. -/
def Output.CdrHit [CaseTable] (schema : SchemaModel) (output : Output) (cdr : CdrRegistry)
    (call : Call) :
    Prop :=
  ∃ target tag, schema.find call.typeName = some target ∧
    output.constantTag call.constant = some tag ∧
    (cxxName target, target.name, tag) ∈ output.cdrEntries ∧
    cdr.lookupByTag tag = .ok (cxxName target) ∧
    output.sources.lookup (cxxName target) = some target

def Output.JsonHit [CaseTable] (schema : SchemaModel) (output : Output) (call : Call) : Prop :=
  ∃ target, schema.find call.typeName = some target ∧
    (cxxName target, call.typeName) ∈ output.jsonEntries ∧
    output.jsonRegistry.lookup call.typeName = .ok (cxxName target) ∧
    output.sources.lookup (cxxName target) = some target

theorem cdr_registered [CaseTable] (compiled : compile schema config = .ok output) :
    ∃ cdr, output.cdrRegistry = .ok cdr := by
  rcases compile_ok compiled with ⟨run, checked, _, entries, _⟩
  have tags := nodup_tags (closed_selected run).sublist checked
  rw [Output.cdrRegistry, entries]
  apply Cdr.registerAll_of_nodup
  · rw [List.map_map]
    exact tags
  · intro entry member
    rfl

theorem hit_of_mayCall [CaseTable] (supported : Supported schema)
    (compiled : compile schema config = .ok output) {lookup : Call → Option String}
    {hit : Call → Prop}
    (finds : ∀ m ∈ output.typeModels, ∀ call ∈ handlerCalls schema m,
      ∀ target ∈ concreteTypes output.typeModels, schema.find call.typeName = some target →
      hit call ∧ lookup call = some (cxxName target))
    {m : TypeModel} (concrete : m ∈ concreteTypes output.typeModels) {call : Call}
    (may : MayCall (output.calls schema) lookup (cxxName m) call) : hit call := by
  rcases compile_ok compiled with ⟨run, _, _, _, _, sources⟩
  have closed := closed_selected run
  apply may.hits fun handler => ∃ m ∈ concreteTypes output.typeModels, cxxName m = handler
  · rintro handler ⟨m, concrete, rfl⟩ call makes
    rw [Output.calls, sources, lookup_source supported closed.sublist concrete] at makes
    have member := (mem_of_concrete concrete).1
    rcases call_target supported closed member makes with ⟨target, isTarget, found⟩
    have both := finds m member call makes target isTarget found
    refine ⟨both.1, ?_⟩
    intro inner looked
    rw [both.2] at looked
    exact ⟨target, isTarget, Option.some.inj looked⟩
  · exact ⟨m, concrete, rfl⟩

theorem constantTag_eq_some [CaseTable] (compiled : compile schema config = .ok output)
    {constant : String}
    {tag : UInt32} : output.constantTag constant = some tag ↔
      ∃ owner ∈ output.typeModels, fnv1a32 owner.name = tag ∧
        firstLetterToLower (cxxName owner) = constant ∧
        ∀ other ∈ output.typeModels, firstLetterToLower (cxxName other) = constant →
          other = owner := by
  rcases compile_ok compiled with ⟨run, _, accessorTypes, _⟩
  have distinct : output.typeModels.Nodup :=
    (List.Nodup.of_map _ schema.nodupNames).sublist (closed_selected run).sublist
  have single : output.constantTag constant = some tag ↔ ∃ owner,
      (output.typeModels.filter fun m => firstLetterToLower (cxxName m) = constant) = [owner] ∧
        fnv1a32 owner.name = tag := by
    rw [Output.constantTag, accessorTypes, renderAccessorTypeH, List.filter_map]
    simp only [Function.comp_def]
    rcases output.typeModels.filter _ with _ | ⟨owner, _ | ⟨other, rest⟩⟩
    · simp
    · simp
    · simp
  rw [single]
  constructor
  · intro given
    rcases given with ⟨owner, alone, tagged⟩
    rcases (filter_eq_singleton_iff distinct).mp alone with ⟨inside, has, others⟩
    exact ⟨owner, inside, tagged, of_decide_eq_true has, fun other among same =>
      others other among (decide_eq_true same)⟩
  · intro given
    rcases given with ⟨owner, inside, tagged, has, others⟩
    refine ⟨owner, (filter_eq_singleton_iff distinct).mpr ⟨inside, decide_eq_true has, ?_⟩, tagged⟩
    intro other among same
    exact others other among (of_decide_eq_true same)

theorem cdr_hit_iff [CaseTable] (supported : Supported schema)
    (compiled : compile schema config = .ok output)
    {cdr : CdrRegistry} (registered : output.cdrRegistry = .ok cdr) {call : Call}
    {target : TypeModel} (concrete : target ∈ concreteTypes output.typeModels)
    (found : schema.find call.typeName = some target) :
    output.CdrHit schema cdr call ↔ Owned output.typeModels call.constant call.typeName := by
  rcases compile_ok compiled with ⟨run, _, _, entries, _, sources⟩
  have named : target.name = call.typeName := SchemaModel.find_name found
  constructor
  · intro hit
    rcases hit with ⟨target', tag, found', known, entry, _⟩
    rw [entries] at entry
    rcases List.mem_map.mp entry with ⟨m, _, same⟩
    simp only [Prod.mk.injEq] at same
    rw [found, Option.some.injEq] at found'
    have tagged : tag = fnv1a32 call.typeName := by
      rw [← same.2.2, same.2.1, ← found', named]
    rw [tagged] at known
    exact (constantTag_eq_some compiled).mp known
  · intro owned
    have entry : (cxxName target, target.name, fnv1a32 target.name) ∈ output.cdrEntries := by
      rw [entries]
      exact List.mem_map.mpr ⟨target, concrete, rfl⟩
    have held : cdr.lookupByTag (fnv1a32 target.name) = .ok (cxxName target) := by
      have inTable : cdr.tagTable.lookup (fnv1a32 target.name) = some (cxxName target) :=
        Cdr.registerAll_lookup registered
          (List.mem_map.mpr ⟨(cxxName target, target.name, fnv1a32 target.name), entry, rfl⟩)
      simp only [CdrRegistry.lookupByTag, inTable]
    refine ⟨target, fnv1a32 target.name, found, ?_, entry, held, ?_⟩
    · rw [named]
      exact (constantTag_eq_some compiled).mpr owned
    · rw [sources]
      exact lookup_source supported (closed_selected run).sublist concrete

theorem Output.CdrHit.lookup [CaseTable] {cdr : CdrRegistry} {call : Call} {target : TypeModel}
    (found : schema.find call.typeName = some target) (hit : output.CdrHit schema cdr call) :
    output.lookupCdr cdr call = some (cxxName target) := by
  rcases hit with ⟨target', tag, found', known, _, held, _⟩
  rw [found, Option.some.injEq] at found'
  simp only [Output.lookupCdr, known, Option.bind_eq_bind, Option.bind_some, held,
    Except.toOption, found']

theorem json_hit [CaseTable] (supported : Supported schema)
    (compiled : compile schema config = .ok output)
    {call : Call} {target : TypeModel} (concrete : target ∈ concreteTypes output.typeModels)
    (found : schema.find call.typeName = some target) :
    output.JsonHit schema call ∧ output.lookupJson call = some (cxxName target) := by
  rcases compile_ok compiled with ⟨run, _, _, _, entries, sources⟩
  have sublist := (closed_selected run).sublist
  have named : target.name = call.typeName := SchemaModel.find_name found
  have entry : (cxxName target, call.typeName) ∈ output.jsonEntries := by
    rw [entries, ← named]
    exact List.mem_map.mpr ⟨target, concrete, rfl⟩
  have held : output.jsonRegistry.lookup call.typeName = .ok (cxxName target) := by
    have inTable : output.jsonRegistry.table.lookup call.typeName = some (cxxName target) := by
      rw [Output.jsonRegistry, jsonRegistry_table, List.append_nil]
      apply lookup_of_mem
      · have distinct := nodup_concrete schema.nodupNames sublist
        rw [List.map_reverse, List.nodup_reverse, entries, renderJsonRegisterAll, List.map_map,
          List.map_map]
        exact distinct
      · apply List.mem_reverse.mpr
        exact List.mem_map.mpr ⟨(cxxName target, call.typeName), entry, Prod.swap_prod_mk⟩
    simp only [JsonRegistry.lookup, inTable]
  constructor
  · refine ⟨target, found, entry, held, ?_⟩
    rw [sources]
    exact lookup_source supported sublist concrete
  · simp only [Output.lookupJson, held, Except.toOption]

/-- The handlers can be registered, and no lookup that a handler of a selected type comes to,
itself or in the handlers it calls, misses the one it is meant for. -/
def Output.LookupsHit [CaseTable] (schema : SchemaModel) (output : Output) : Prop :=
  ∃ cdr, output.cdrRegistry = .ok cdr ∧
    ∀ m ∈ output.typeModels, m.isSimpleRestriction = false → ∀ call,
      (MayCall (output.calls schema) (output.lookupCdr cdr) (cxxName m) call →
        output.CdrHit schema cdr call) ∧
      (MayCall (output.calls schema) output.lookupJson (cxxName m) call →
        output.JsonHit schema call)

/-- The lookups of both codecs hit exactly when the constants of what is referred to are apart. -/
theorem lookups_hit_iff [CaseTable] (supported : Supported schema)
    (compiled : compile schema config = .ok output) :
    output.LookupsHit schema ↔ ConstantsApart schema output.typeModels := by
  rcases cdr_registered compiled with ⟨cdr, registered⟩
  rcases compile_ok compiled with ⟨run, _, _, _, _, sources⟩
  have closed := closed_selected run
  rw [constantsApart_iff]
  constructor
  · intro given m member call makes
    rcases given with ⟨cdr', registered', hits⟩
    rcases call_target supported closed member makes with ⟨target, isTarget, found⟩
    have classy := classy_of_calls makes
    have source := lookup_source supported closed.sublist
      (List.mem_filter.mpr ⟨member, by rw [classy]; rfl⟩)
    have own : call ∈ output.calls schema (cxxName m) := by
      rw [Output.calls, sources, source]
      exact makes
    exact (cdr_hit_iff supported compiled registered' isTarget found).mp
      ((hits m member classy call).1 (.own own))
  · intro owned
    refine ⟨cdr, registered, ?_⟩
    intro m member classy call
    have concrete : m ∈ concreteTypes output.typeModels :=
      List.mem_filter.mpr ⟨member, by rw [classy]; rfl⟩
    constructor
    · intro may
      apply hit_of_mayCall supported compiled _ concrete may
      intro m member call makes target isTarget found
      have hit := (cdr_hit_iff supported compiled registered isTarget found).mpr
        (owned m member call makes)
      exact ⟨hit, hit.lookup found⟩
    · intro may
      apply hit_of_mayCall supported compiled _ concrete may
      intro m member call makes target isTarget found
      exact json_hit supported compiled isTarget found

theorem compile_of_typeModels [CaseTable] {typeModels : List TypeModel}
    (run : (compile schema config).toOption.map Output.typeModels = some typeModels) :
    ∃ output, compile schema config = .ok output ∧ output.typeModels = typeModels := by
  cases compiled : compile schema config with
  | error message => simp [compiled, Except.toOption] at run
  | ok output =>
      simp only [compiled, Except.toOption, Option.map_some, Option.some.injEq] at run
      exact ⟨output, rfl, run⟩

end Runs

section Samples

attribute [local instance] latinCase

theorem sampleSchema_supported : Supported sampleSchema where
  elements := sampleSchema_wellFormed.elements
  bases := sampleSchema_wellFormed.bases
  classNames := by decide +kernel

def trackConfig : SubsetConfig := ⟨["Track"], []⟩

/-- The track handler finds the handler of its base. -/
theorem lookups_hit_track :
    ∃ output, compile sampleSchema (some trackConfig) = .ok output ∧
      ∃ cdr, output.cdrRegistry = .ok cdr ∧
        output.CdrHit sampleSchema cdr (.base "HeaderType") := by
  have run : ∃ output, compile sampleSchema (some trackConfig) = .ok output ∧
      output.typeModels = sampleSchema.types := compile_of_typeModels (by decide +kernel)
  rcases run with ⟨output, compiled, all⟩
  have localBases : ∀ m ∈ sampleSchema.types, ∀ name, m.baseType = some name →
      ':' ∉ name.toList := by
    intro m member name based
    have every : ∀ m ∈ sampleSchema.types, m.baseType = none ∨ m.baseType = some "HeaderType" := by
      decide
    rcases every m member with none' | header
    · simp [none'] at based
    · rw [header] at based
      rw [← Option.some.inj based]
      decide
  have apart : ConstantsApart sampleSchema output.typeModels := by
    rw [all]
    exact constantsApart_of_ascii sampleSchema_supported (closed_all sampleSchema) localBases
      (by simp [sampleSchema, localName])
  rcases (lookups_hit_iff sampleSchema_supported compiled).mpr apart with ⟨cdr, registered, hits⟩
  refine ⟨output, compiled, cdr, registered, ?_⟩
  have member : sampleSchema.types[3] ∈ output.typeModels := by
    rw [all]
    exact List.getElem_mem _
  refine (hits _ member rfl _).1 (.own ?_)
  rw [Output.calls, (compile_ok compiled).2.2.2.2.2, all]
  decide +kernel

def sharpSchema : SchemaModel where
  types := [⟨"ßBase", .complex [] [] none⟩, ⟨"Derived", .complex [] [] (some "ßBase")⟩]
  globalElements := [⟨"Derived", "Derived"⟩]
  nodupNames := by decide

theorem sharpSchema_supported : Supported sharpSchema where
  elements := by decide
  bases := by
    intro m member name based
    rcases List.mem_pair.mp member with rfl | rfl
    · cases based
    · rw [← Option.some.inj based]
      exact .inr ⟨⟨"ßBase", .complex [] [] none⟩, by decide, rfl⟩
  classNames := by decide +kernel

/-- The handler of the derived type names a constant that `accessorType.h` does not have. -/
theorem base_lookup_misses :
    Supported sharpSchema ∧ ∃ output, compile sharpSchema none = .ok output ∧
      output.accessorTypes.map Prod.fst = ["sSBase", "derived"] ∧
      Call.constant (.base "ßBase") = "ßBase" ∧ ¬ output.LookupsHit sharpSchema := by
  have run : ∃ output, compile sharpSchema none = .ok output ∧
      output.typeModels = sharpSchema.types := compile_of_typeModels (by decide +kernel)
  rcases run with ⟨output, compiled, all⟩
  have constants : output.accessorTypes.map Prod.fst = ["sSBase", "derived"] := by
    rw [(compile_ok compiled).2.2.1, all]
    decide +kernel
  refine ⟨sharpSchema_supported, output, compiled, constants, by decide +kernel, ?_⟩
  intro hit
  rcases hit with ⟨cdr, registered, hits⟩
  have member : sharpSchema.types[1] ∈ output.typeModels := by
    rw [all]
    exact List.getElem_mem _
  have own : .base "ßBase" ∈ output.calls sharpSchema "Derived" := by
    rw [Output.calls, (compile_ok compiled).2.2.2.2.2, all]
    decide +kernel
  rcases (hits _ member rfl (.base "ßBase")).1 (.own own) with ⟨_, tag, _, known, _⟩
  rcases (constantTag_eq_some compiled).mp known with ⟨owner, inside, _, same, _⟩
  rw [all] at inside
  rcases List.mem_pair.mp inside with rfl | rfl
  · exact absurd same (by decide +kernel)
  · exact absurd same (by decide +kernel)

end Samples

end Arcal.Compiler
