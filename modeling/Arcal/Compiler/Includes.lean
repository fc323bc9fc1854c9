import Arcal.Compiler.Files

/-! The `#include`s of generated headers in the files of one run. -/

namespace Arcal.Compiler

open Schema

def fieldCxxType [CaseTable] (typeName : String) : String :=
  match cxxPrimitiveMap.lookup typeName with
  | some cxxType => cxxTypeName cxxType
  | none => xsdNameToCxx typeName

def typeIsGenerated (schema : SchemaModel) (typeName : String) : Bool :=
  match schema.find typeName with
  | some m => typeName != uuidTypeName && !m.isSimpleRestriction
  | none => false

def appendUnique (items : List String) (value : String) : List String :=
  if value ∈ items then items else items ++ [value]

/-- The list `include_type_headers` of `collect_public_header_dependencies`. -/
def includeTypeHeaders [CaseTable] (m : TypeModel) : List String :=
  (elementTypes m).foldl (fun items typeName =>
    if typeName ∈ primitiveTypes then items else appendUnique items (fieldCxxType typeName)) []

def accessorTypeHeader : Path := typeHeader "accessorType"

/-- `ENUM_H_TEMPLATE`, `STRING_RESTRICTION_H_TEMPLATE` or `ACCESSOR_H_TEMPLATE`: the base is
named as the schema writes it. -/
def typeIncludes [CaseTable] (m : TypeModel) : List Path :=
  match m.kind with
  | .enumeration _ => [accessorTypeHeader]
  | .simpleRestriction _ => []
  | .complex _ _ baseType =>
      accessorTypeHeader :: ((baseName baseType).toList ++ includeTypeHeaders m).map typeHeader

/-- `ENUM_IMPL_H_TEMPLATE` or `ACCESSOR_IMPL_H_TEMPLATE` -/
def typeImplIncludes [CaseTable] (schema : SchemaModel) (m : TypeModel) : List Path :=
  typeHeader (cxxName m) ::
    match m.kind with
    | .complex _ _ baseType =>
        ((baseName baseType).toList ++
          ((elementTypes m).filter (typeIsGenerated schema)).map fieldCxxType).map implHeader
    | _ => []

def factoryTypes [CaseTable] (elems : List GlobalElementModel) : List String :=
  elems.foldl (fun seen elem =>
    if elem.typeName = "" then seen else appendUnique seen (xsdNameToCxx elem.typeName)) []

/-- What a file includes of `uci/type` and `generated/type_impl`. -/
def Text.includes [CaseTable] (schema : SchemaModel) : Text → List Path
  | .type m _ => typeIncludes m
  | .typeImpl m => typeImplIncludes schema m
  | .typeImplCpp m _ => [implHeader (cxxName m)]
  | .cdrHandler m => [typeHeader (cxxName m), implHeader (cxxName m), accessorTypeHeader]
  | .jsonHandler m => [typeHeader (cxxName m), implHeader (cxxName m)]
  | .accessorTypeH _ => []
  | .cdrRegisterAll _ => []
  | .jsonRegisterAll _ => []
  | .globalElement elem => [typeHeader (xsdNameToCxx elem.typeName)]
  | .accessorFactory elems => (factoryTypes elems).map typeHeader

structure Declared (schema : SchemaModel) : Prop where
  elements : ∀ m ∈ schema.types, ∀ name ∈ elementTypes m,
    name ∈ primitiveTypes ∨ (schema.find name).isSome
  bases : ∀ m ∈ schema.types, ∀ name, m.baseType = some name →
    name ∈ primitiveTypes ∨ (schema.find name).isSome

namespace Output

def Resolved [CaseTable] (schema : SchemaModel) (output : Output) : Prop :=
  ∀ file ∈ output.written, ∀ path ∈ file.2.includes schema, path ∈ output.paths

/-- Every base is written like the class of a type that has one, no field or variant has a
class type with the name of a primitive, and every element has a type with a class. -/
structure Includable [CaseTable] (schema : SchemaModel) (output : Output) : Prop where
  bases : ∀ m ∈ output.typeModels, ∀ base, baseName m.baseType = some base →
    ∃ target ∈ concreteTypes output.typeModels, cxxName target = base
  members : ∀ m ∈ output.typeModels, ∀ name ∈ elementTypes m, name ∈ primitiveTypes →
    typeIsGenerated schema name = false
  elements : ∀ elem ∈ output.globalElements,
    xsdNameToCxx elem.typeName ∈
      output.typeModels.map cxxName ++ output.globalElements.map elementClass

end Output

section Headers

variable {output : Output}

theorem typeHeader_inj {left right : String} (same : typeHeader left = typeHeader right) :
    left = right := by
  have names := congrArg Path.className same
  rw [className_typeHeader, className_typeHeader] at names
  exact String.toList_inj.mp names

theorem implHeader_inj {left right : String} (same : implHeader left = implHeader right) :
    left = right := by
  have names := congrArg Path.className same
  rw [className_implHeader, className_implHeader] at names
  exact String.toList_inj.mp names

theorem typeHeader_mem_paths [CaseTable] {name : String} : typeHeader name ∈ output.paths ↔
    name ∈ output.typeModels.map cxxName ++ output.globalElements.map elementClass ∨
      name = "accessorType" := by
  rw [Output.mem_paths_iff, List.mem_append, List.mem_map, List.mem_map]
  constructor
  · rintro (⟨m, member, among⟩ | ⟨elem, member, same⟩ | fixed)
    · rcases mem_typePaths.mp among with same | ⟨_, same | same | same | same⟩
      · exact Or.inl (Or.inl ⟨m, member, (typeHeader_inj same).symm⟩)
      all_goals cases congrArg Path.dir same
    · exact Or.inl (Or.inr ⟨elem, member, typeHeader_inj same⟩)
    · simp only [Output.fixedPaths, List.mem_cons, List.not_mem_nil, or_false] at fixed
      rcases fixed with same | same | same | same
      · have accessor : name = "accessorType" := typeHeader_inj same
        exact Or.inr accessor
      all_goals cases congrArg Path.dir same
  · rintro ((⟨m, member, rfl⟩ | ⟨elem, member, rfl⟩) | rfl)
    · exact Or.inl ⟨m, member, mem_typePaths.mpr (Or.inl rfl)⟩
    · exact Or.inr (Or.inl ⟨elem, member, rfl⟩)
    · exact Or.inr (Or.inr List.mem_cons_self)

theorem accessorTypeHeader_mem_paths [CaseTable] : accessorTypeHeader ∈ output.paths :=
  typeHeader_mem_paths.mpr (Or.inr rfl)

theorem implHeader_mem_paths [CaseTable] {name : String} : implHeader name ∈ output.paths ↔
    ∃ target ∈ concreteTypes output.typeModels, cxxName target = name := by
  rw [Output.mem_paths_iff]
  constructor
  · rintro (⟨m, member, among⟩ | ⟨elem, member, same⟩ | fixed)
    · rcases mem_typePaths.mp among with same | ⟨classy, same | same | same | same⟩
      · cases congrArg Path.dir same
      · refine ⟨m, List.mem_filter.mpr ⟨member, ?_⟩, (implHeader_inj same).symm⟩
        rw [classy]
        rfl
      · exact absurd same (implHeader_ne_implSource _ _)
      all_goals cases congrArg Path.dir same
    · cases congrArg Path.dir same
    · simp only [Output.fixedPaths, List.mem_cons, List.not_mem_nil, or_false] at fixed
      rcases fixed with same | same | same | same
      all_goals cases congrArg Path.dir same
  · rintro ⟨target, concrete, rfl⟩
    obtain ⟨member, classy⟩ := mem_of_concrete concrete
    exact Or.inl ⟨target, member, mem_typePaths.mpr (Or.inr ⟨classy, Or.inl rfl⟩)⟩

theorem typeHeader_of_concrete [CaseTable] {target : TypeModel}
    (concrete : target ∈ concreteTypes output.typeModels) :
    typeHeader (cxxName target) ∈ output.paths := by
  refine typeHeader_mem_paths.mpr (Or.inl (List.mem_append_left _ ?_))
  exact List.mem_map_of_mem (mem_of_concrete concrete).1

theorem implHeader_of_concrete [CaseTable] {target : TypeModel}
    (concrete : target ∈ concreteTypes output.typeModels) :
    implHeader (cxxName target) ∈ output.paths :=
  implHeader_mem_paths.mpr ⟨target, concrete, rfl⟩

end Headers

section Templates

variable {schema : SchemaModel} {m : TypeModel}

theorem mem_appendUnique {items : List String} {value name : String} :
    name ∈ appendUnique items value ↔ name ∈ items ∨ name = value := by
  rw [appendUnique]
  split_ifs with known
  · constructor
    · exact Or.inl
    · rintro (old | rfl)
      · exact old
      · exact known
  · rw [List.mem_append, List.mem_singleton]

theorem mem_of_collected {α : Type} {skip : α → Prop} [DecidablePred skip] {f : α → String}
    {name : String} {all : List α} {items : List String}
    (member : name ∈ all.foldl (fun items a => if skip a then items else appendUnique items (f a))
      items) : name ∈ items ∨ ∃ a ∈ all, ¬ skip a ∧ name = f a := by
  induction all generalizing items with
  | nil => exact Or.inl member
  | cons a rest ih =>
      rw [List.foldl_cons] at member
      rcases ih member with here | ⟨b, later, taken⟩
      · split_ifs at here with skipped
        · exact Or.inl here
        · cases mem_appendUnique.mp here with
          | inl old => exact Or.inl old
          | inr new => exact Or.inr ⟨a, List.mem_cons_self, skipped, new⟩
      · exact Or.inr ⟨b, List.mem_cons_of_mem _ later, taken⟩

theorem fieldCxxType_of_foreign [CaseTable] {typeName : String}
    (foreign : typeName ∉ primitiveTypes) :
    fieldCxxType typeName = xsdNameToCxx typeName := by
  rw [mem_primitiveTypes_iff, Option.not_isSome_iff_eq_none] at foreign
  rw [fieldCxxType, foreign]

theorem fieldCxxType_of_primitive [CaseTable] {typeName name : String}
    (primitive : typeName ∈ primitiveTypes) :
    fieldCxxType typeName ≠ xsdNameToCxx name := by
  rw [mem_primitiveTypes_iff] at primitive
  obtain ⟨cxxType, mapped⟩ := Option.isSome_iff_exists.mp primitive
  have small : ∃ c rest, (cxxTypeName cxxType).toList = c :: rest ∧ c.isLower = true := by
    cases cxxType
    all_goals exact ⟨_, _, rfl, by decide⟩
  obtain ⟨c, rest, starts, lower⟩ := small
  rw [fieldCxxType, mapped]
  intro same
  exact xsdNameToCxx_ne lower ((congrArg String.toList same).symm.trans starts)

theorem complex_of_baseName {base : String} (based : baseName m.baseType = some base) :
    ∃ fields choices baseType, m.kind = .complex fields choices baseType ∧
      baseName baseType = some base := by
  cases kind : m.kind with
  | complex fields choices baseType =>
      simp only [TypeModel.baseType, kind] at based
      exact ⟨fields, choices, baseType, rfl, based⟩
  | enumeration enumValues => simp [TypeModel.baseType, kind, baseName] at based
  | simpleRestriction base => simp [TypeModel.baseType, kind, baseName] at based

theorem complex_of_elementTypes {name : String} (member : name ∈ elementTypes m) :
    ∃ fields choices baseType, m.kind = .complex fields choices baseType := by
  cases kind : m.kind with
  | complex fields choices baseType => exact ⟨fields, choices, baseType, rfl⟩
  | enumeration enumValues => simp [elementTypes, kind] at member
  | simpleRestriction base => simp [elementTypes, kind] at member

theorem base_mem_typeImplIncludes [CaseTable] {base : String}
    (based : baseName m.baseType = some base) :
    implHeader base ∈ typeImplIncludes schema m := by
  obtain ⟨fields, choices, baseType, kind, named⟩ := complex_of_baseName based
  simp [typeImplIncludes, kind, named]

theorem member_mem_typeImplIncludes [CaseTable] {name : String} (member : name ∈ elementTypes m)
    (generated : typeIsGenerated schema name = true) :
    implHeader (fieldCxxType name) ∈ typeImplIncludes schema m := by
  obtain ⟨fields, choices, baseType, kind⟩ := complex_of_elementTypes member
  simp only [typeImplIncludes, kind, List.mem_cons]
  refine Or.inr (List.mem_map_of_mem (List.mem_append_right _ (List.mem_map_of_mem ?_)))
  exact List.mem_filter.mpr ⟨member, generated⟩

theorem mem_typeIncludes [CaseTable] {path : Path} (included : path ∈ typeIncludes m) :
    path = accessorTypeHeader ∨ (∃ base, baseName m.baseType = some base ∧ path = typeHeader base) ∨
      ∃ name ∈ elementTypes m, name ∉ primitiveTypes ∧ path = typeHeader (xsdNameToCxx name) := by
  cases kind : m.kind with
  | enumeration enumValues =>
      simp only [typeIncludes, kind, List.mem_singleton] at included
      exact Or.inl included
  | simpleRestriction base => simp [typeIncludes, kind] at included
  | complex fields choices baseType =>
      simp only [typeIncludes, kind, List.mem_cons, List.mem_map, List.mem_append,
        Option.mem_toList] at included
      rcases included with isFixed | ⟨name, based | ofMember, same⟩
      · exact Or.inl isFixed
      · refine Or.inr (Or.inl ⟨name, ?_, same.symm⟩)
        simp only [TypeModel.baseType, kind]
        exact based
      · cases mem_of_collected ofMember with
        | inl none => cases none
        | inr taken =>
            obtain ⟨typeName, member, foreign, named⟩ := taken
            refine Or.inr (Or.inr ⟨typeName, member, foreign, ?_⟩)
            rw [← same, named, fieldCxxType_of_foreign foreign]

theorem mem_typeImplIncludes [CaseTable] {path : Path}
    (included : path ∈ typeImplIncludes schema m) :
    path = typeHeader (cxxName m) ∨
      (∃ base, baseName m.baseType = some base ∧ path = implHeader base) ∨
      ∃ name ∈ elementTypes m, typeIsGenerated schema name = true ∧
        path = implHeader (fieldCxxType name) := by
  rw [typeImplIncludes, List.mem_cons] at included
  cases included with
  | inl own => exact Or.inl own
  | inr other =>
      cases kind : m.kind with
      | enumeration enumValues => simp [kind] at other
      | simpleRestriction base => simp [kind] at other
      | complex fields choices baseType =>
          simp only [kind, List.mem_map, List.mem_append, Option.mem_toList, List.mem_filter]
            at other
          rcases other with ⟨name, based | ⟨typeName, ⟨member, generated⟩, named⟩, same⟩
          · refine Or.inr (Or.inl ⟨name, ?_, same.symm⟩)
            simp only [TypeModel.baseType, kind]
            exact based
          · exact Or.inr (Or.inr ⟨typeName, member, generated, by rw [← same, named]⟩)

theorem mem_factoryTypes [CaseTable] {elems : List GlobalElementModel} {name : String}
    (member : name ∈ factoryTypes elems) : ∃ elem ∈ elems, xsdNameToCxx elem.typeName = name := by
  cases mem_of_collected member with
  | inl none => cases none
  | inr taken =>
      obtain ⟨elem, among, _, same⟩ := taken
      exact ⟨elem, among, same.symm⟩

end Templates

section Runs

variable {schema : SchemaModel} {config : Option SubsetConfig} {output : Output}

theorem mem_written [CaseTable] {file : Path × Text} (written : file ∈ output.written) :
    (∃ m ∈ output.typeModels, file ∈ typeFiles output.globalElements m) ∨
      (∃ elem ∈ output.globalElements, elementFile elem = file) ∨
      file ∈ registerFiles output.typeModels ∨ file = factoryFile output.globalElements := by
  simp only [Output.written, List.mem_append, List.mem_flatMap, List.mem_map,
    List.mem_singleton] at written
  rcases written with ((ofType | register) | ofElement) | factory
  · exact Or.inl ofType
  · exact Or.inr (Or.inr (Or.inl register))
  · exact Or.inr (Or.inl ofElement)
  · exact Or.inr (Or.inr (Or.inr factory))

theorem typeImpl_mem_written [CaseTable] {m : TypeModel}
    (concrete : m ∈ concreteTypes output.typeModels) :
    (implHeader (cxxName m), Text.typeImpl m) ∈ output.written := by
  obtain ⟨member, classy⟩ := mem_of_concrete concrete
  simp only [Output.written, List.append_assoc]
  refine List.mem_append_left _ (List.mem_flatMap.mpr ⟨m, member, ?_⟩)
  simp [typeFiles, classy]

theorem elementFile_mem_written [CaseTable] {elem : GlobalElementModel}
    (member : elem ∈ output.globalElements) : elementFile elem ∈ output.written := by
  simp only [Output.written, List.mem_append]
  exact Or.inl (Or.inr (List.mem_map_of_mem member))

theorem concrete_of_complex {m : TypeModel} (member : m ∈ output.typeModels)
    (isComplex : ∃ fields choices baseType, m.kind = .complex fields choices baseType) :
    m ∈ concreteTypes output.typeModels := by
  obtain ⟨fields, choices, baseType, kind⟩ := isComplex
  refine List.mem_filter.mpr ⟨member, ?_⟩
  rw [TypeModel.isSimpleRestriction, kind]
  rfl

theorem includable_of_resolved [CaseTable] (resolved : output.Resolved schema) :
    output.Includable schema where
  bases := by
    intro m member base based
    obtain ⟨fields, choices, baseType, kind, _⟩ := complex_of_baseName based
    have concrete := concrete_of_complex member ⟨fields, choices, baseType, kind⟩
    exact implHeader_mem_paths.mp (resolved _ (typeImpl_mem_written concrete) _
      (base_mem_typeImplIncludes based))
  members := by
    intro m member name among primitive
    cases generated : typeIsGenerated schema name with
    | false => rfl
    | true =>
        have concrete := concrete_of_complex member (complex_of_elementTypes among)
        obtain ⟨target, _, same⟩ := implHeader_mem_paths.mp (resolved _
          (typeImpl_mem_written concrete) _ (member_mem_typeImplIncludes among generated))
        exact absurd same.symm (fieldCxxType_of_primitive primitive)
  elements := by
    intro elem member
    have there := resolved _ (elementFile_mem_written member) _ List.mem_cons_self
    cases typeHeader_mem_paths.mp there with
    | inl named => exact named
    | inr isFixed =>
        have lower : 'a'.isLower = true := by decide
        exact absurd (congrArg String.toList isFixed) (xsdNameToCxx_ne lower)

theorem selected_of_member (closed : Closed schema output.typeModels) {m : TypeModel}
    (member : m ∈ output.typeModels) {name : String} (among : name ∈ elementTypes m)
    (known : (schema.find name).isSome) : ∃ target ∈ output.typeModels, target.name = name :=
  closed.follows m member name (List.mem_append_right _ (List.mem_filter.mpr ⟨among, known⟩))

section Closure

variable [CaseTable] (closed : Closed schema output.typeModels) (declared : Declared schema)
  (includable : output.Includable schema)

include closed declared includable in
theorem typeIncludes_resolved {m : TypeModel} (member : m ∈ output.typeModels) {path : Path}
    (included : path ∈ typeIncludes m) : path ∈ output.paths := by
  rcases mem_typeIncludes included with rfl | ⟨base, based, rfl⟩ | ⟨name, among, foreign, rfl⟩
  · exact accessorTypeHeader_mem_paths
  · obtain ⟨target, concrete, same⟩ := includable.bases m member base based
    rw [← same]
    exact typeHeader_of_concrete concrete
  · have known := (declared.elements m (closed.sublist.subset member) name among).resolve_left foreign
    obtain ⟨target, isTarget, named⟩ := selected_of_member closed member among known
    refine typeHeader_mem_paths.mpr (Or.inl (List.mem_append_left _ ?_))
    rw [← named]
    exact List.mem_map_of_mem isTarget

include closed includable in
theorem typeImplIncludes_resolved {m : TypeModel} (concrete : m ∈ concreteTypes output.typeModels)
    {path : Path} (included : path ∈ typeImplIncludes schema m) : path ∈ output.paths := by
  have member := (mem_of_concrete concrete).1
  rcases mem_typeImplIncludes included with rfl | ⟨base, based, rfl⟩ | ⟨name, among, generated, rfl⟩
  · exact typeHeader_of_concrete concrete
  · exact implHeader_mem_paths.mpr (includable.bases m member base based)
  · have foreign : name ∉ primitiveTypes := by
      intro primitive
      rw [includable.members m member name among primitive] at generated
      cases generated
    cases found : schema.find name with
    | none => simp [typeIsGenerated, found] at generated
    | some target =>
        simp only [typeIsGenerated, found, Bool.and_eq_true, Bool.not_eq_true'] at generated
        obtain ⟨hit, isHit, named⟩ := selected_of_member closed member among (by simp [found])
        have same : hit = target := by
          have both := schema.find_of_mem (closed.sublist.subset isHit)
          rw [named, found] at both
          exact (Option.some.inj both).symm
        refine implHeader_mem_paths.mpr ⟨hit, List.mem_filter.mpr ⟨isHit, ?_⟩, ?_⟩
        · rw [same, generated.2]
          rfl
        · rw [fieldCxxType_of_foreign foreign, cxxName, named]

include closed declared includable in
theorem resolved_of_includable : output.Resolved schema := by
  intro file written path included
  rcases mem_written written with ⟨m, member, ofType⟩ | ⟨elem, member, rfl⟩ | register | rfl
  · rw [typeFiles, List.mem_cons] at ofType
    cases ofType with
    | inl header =>
        rw [header] at included
        exact typeIncludes_resolved closed declared includable member included
    | inr other =>
        cases classy : m.isSimpleRestriction with
        | true => simp [classy] at other
        | false =>
            have concrete : m ∈ concreteTypes output.typeModels :=
              List.mem_filter.mpr ⟨member, by rw [classy]; rfl⟩
            have own := typeHeader_of_concrete concrete
            have impl := implHeader_of_concrete concrete
            simp only [classy, Bool.false_eq_true, if_false, List.mem_cons, List.not_mem_nil,
              or_false] at other
            rcases other with rfl | rfl | rfl | rfl
            · exact typeImplIncludes_resolved closed includable concrete included
            · rw [List.mem_singleton.mp included]
              exact impl
            · simp only [Text.includes, List.mem_cons, List.not_mem_nil, or_false] at included
              rcases included with rfl | rfl | rfl
              · exact own
              · exact impl
              · exact accessorTypeHeader_mem_paths
            · simp only [Text.includes, List.mem_cons, List.not_mem_nil, or_false] at included
              rcases included with rfl | rfl
              · exact own
              · exact impl
  · rw [List.mem_singleton.mp included]
    exact typeHeader_mem_paths.mpr (Or.inl (includable.elements elem member))
  · simp only [registerFiles, List.mem_cons, List.not_mem_nil, or_false] at register
    rcases register with rfl | rfl | rfl
    all_goals cases included
  · obtain ⟨name, isName, rfl⟩ := List.mem_map.mp included
    obtain ⟨elem, member, rfl⟩ := mem_factoryTypes isName
    exact typeHeader_mem_paths.mpr (Or.inl (includable.elements elem member))

end Closure

/-- The files of a run include each other and nothing that is missing exactly when the bases,
members and elements of what is selected meet the condition. -/
theorem includes_resolved [CaseTable] (declared : Declared schema)
    (compiled : compile schema config = .ok output) :
    output.Resolved schema ↔ output.Includable schema := by
  obtain ⟨run, _⟩ := compile_ok compiled
  have closed := closed_selected run
  exact ⟨includable_of_resolved, resolved_of_includable closed declared⟩

end Runs

section Samples

attribute [local instance] latinCase

def smallBaseSchema : SchemaModel where
  types := [
    ⟨"headerType", .complex [⟨"id", uuidTypeName, 1, 1⟩] [] none⟩,
    ⟨"TrackMDT", .complex [⟨"speed", "double", 1, 1⟩] [] (some "headerType")⟩]
  globalElements := [⟨"Track", "TrackMDT"⟩]
  nodupNames := by decide

theorem smallBase_dangles : ∃ output, compile smallBaseSchema none = .ok output ∧
    Declared smallBaseSchema ∧
    ∃ file ∈ output.written, typeHeader "headerType" ∈ file.2.includes smallBaseSchema ∧
      typeHeader "headerType" ∉ output.paths := by
  refine ⟨_, rfl, ⟨by decide, ?_⟩, ?_⟩
  · intro m member name based
    have every : ∀ m ∈ smallBaseSchema.types, m.baseType = none ∨ m.baseType = some "headerType" := by
      decide
    rcases every m member with none | header
    · simp [none] at based
    · rw [header] at based
      rw [← Option.some.inj based]
      decide
  · refine ⟨(typeHeader "TrackMDT", .type smallBaseSchema.types[1] (some ⟨"Track", "TrackMDT"⟩)), ?_⟩
    decide +kernel

/-- The whole sample schema. -/
theorem includes_resolved_sample : ∃ output, compile sampleSchema none = .ok output ∧
    output.Resolved sampleSchema := by
  obtain ⟨output, compiled, all⟩ : ∃ output, compile sampleSchema none = .ok output ∧
      output.typeModels = sampleSchema.types := compile_of_typeModels (by decide +kernel)
  obtain ⟨run, _⟩ := compile_ok compiled
  injection run with both
  injection both with elements types
  have declared : Declared sampleSchema :=
    ⟨sampleSchema_supported.elements, by
      intro m member name based
      refine (sampleSchema_supported.bases m member name based).imp_right ?_
      rintro ⟨base, found, _⟩
      rw [found]
      rfl⟩
  refine ⟨output, compiled, (includes_resolved declared compiled).mpr ?_⟩
  constructor
  · rw [all]
    decide +kernel
  · rw [all]
    decide +kernel
  · rw [all, ← elements]
    decide +kernel

end Samples

end Arcal.Compiler
