import Arcal.Compiler.Handlers

/-! Where one run of `main` writes what: the output loops, the files under fixed names and the
removal of what an earlier run left behind. -/

namespace Arcal.Compiler

open Schema

/-- `type_out_dir`, `cdr_out_dir`, `json_out_dir` and `impl_out_dir`. -/
inductive OutDir
  | type
  | cdr
  | json
  | impl
  deriving DecidableEq, Repr

structure Path where
  dir : OutDir
  name : String
  deriving DecidableEq, Repr

inductive Text
  | type (m : TypeModel) (globalElement : Option GlobalElementModel)
  | typeImpl (m : TypeModel)
  | typeImplCpp (m : TypeModel) (globalElement : Option GlobalElementModel)
  | cdrHandler (m : TypeModel)
  | jsonHandler (m : TypeModel)
  | accessorTypeH (typeModels : List TypeModel)
  | cdrRegisterAll (typeModels : List TypeModel)
  | jsonRegisterAll (typeModels : List TypeModel)
  | globalElement (elem : GlobalElementModel)
  | accessorFactory (elems : List GlobalElementModel)
  deriving DecidableEq, Repr

abbrev Disk := Path → Option Text

def elementClass [CaseTable] (elem : GlobalElementModel) : String := xsdNameToCxx elem.name

def typeHeader (className : String) : Path := ⟨.type, className ++ ".h"⟩
def implHeader (className : String) : Path := ⟨.impl, className ++ "Impl.h"⟩
def implSource (className : String) : Path := ⟨.impl, className ++ "Impl.cpp"⟩
def cdrSource (className : String) : Path := ⟨.cdr, className ++ "_cdr.cpp"⟩
def jsonSource (className : String) : Path := ⟨.json, className ++ "_json.cpp"⟩

/-- `global_element_for_type`: of two elements with one type the later one stands. -/
def globalElementFor (elems : List GlobalElementModel) (name : String) :
    Option GlobalElementModel :=
  elems.reverse.find? fun elem => elem.typeName == name

def typeFiles [CaseTable] (elems : List GlobalElementModel) (m : TypeModel) : List (Path × Text) :=
  let globalElement := globalElementFor elems m.name
  (typeHeader (cxxName m), .type m globalElement) ::
    if m.isSimpleRestriction then []
    else
      [(implHeader (cxxName m), .typeImpl m),
        (implSource (cxxName m), .typeImplCpp m globalElement),
        (cdrSource (cxxName m), .cdrHandler m),
        (jsonSource (cxxName m), .jsonHandler m)]

def elementFile [CaseTable] (elem : GlobalElementModel) : Path × Text :=
  (typeHeader (elementClass elem), .globalElement elem)

def registerFiles (typeModels : List TypeModel) : List (Path × Text) :=
  [(⟨.type, "accessorType.h"⟩, .accessorTypeH typeModels),
    (⟨.cdr, "cdr_register_all.cpp"⟩, .cdrRegisterAll typeModels),
    (⟨.json, "json_register_all.cpp"⟩, .jsonRegisterAll typeModels)]

def factoryFile (elems : List GlobalElementModel) : Path × Text :=
  (⟨.cdr, "accessor_factory_all.cpp"⟩, .accessorFactory elems)

namespace Output

variable (output : Output)

def written [CaseTable] : List (Path × Text) :=
  output.typeModels.flatMap (typeFiles output.globalElements) ++
    registerFiles output.typeModels ++ output.globalElements.map elementFile ++
    [factoryFile output.globalElements]

def paths [CaseTable] : List Path := output.written.map Prod.fst

end Output

/-- The files that the `existing_*` sets look at. -/
def globbed (path : Path) : Bool :=
  match path.dir with
  | .type => ".h".toList.isSuffixOf path.name.toList
  | .impl => ".h".toList.isSuffixOf path.name.toList || ".cpp".toList.isSuffixOf path.name.toList
  | .cdr => ".cpp".toList.isSuffixOf path.name.toList
  | .json => ".cpp".toList.isSuffixOf path.name.toList

/-- The disk at the end of the run: the last text written to a path, and of the files that
were there before those that are not stale. -/
def Output.disk [CaseTable] (output : Output) (before : Disk) : Disk := fun path =>
  match output.written.reverse.lookup path with
  | some text => some text
  | none => if globbed path then none else before path

/-- The class a path was made for, without the ending of the kind of file it is. -/
def Path.className (path : Path) : List Char :=
  match path.dir with
  | .type => path.name.toList.rdrop 2
  | .cdr => path.name.toList.rdrop 8
  | .json => path.name.toList.rdrop 9
  | .impl => if path.name.toList.getLast? = some 'h' then path.name.toList.rdrop 6
      else path.name.toList.rdrop 8

section Names

theorem rdrop_ending (className : String) {ending : String} {n : Nat}
    (long : ending.toList.length = n) :
    (className ++ ending).toList.rdrop n = className.toList := by
  rw [String.toList_append, ← long]
  exact List.rdrop_append_length

@[simp] theorem className_typeHeader (name : String) :
    (typeHeader name).className = name.toList := rdrop_ending name rfl

@[simp] theorem className_cdrSource (name : String) :
    (cdrSource name).className = name.toList := rdrop_ending name rfl

@[simp] theorem className_jsonSource (name : String) :
    (jsonSource name).className = name.toList := rdrop_ending name rfl

@[simp] theorem className_implHeader (name : String) :
    (implHeader name).className = name.toList := by
  have ends : (name ++ "Impl.h").toList.getLast? = some 'h' := by
    rw [String.toList_append, List.getLast?_append]
    rfl
  simp only [Path.className, implHeader, ends, if_true]
  exact rdrop_ending name rfl

@[simp] theorem className_implSource (name : String) :
    (implSource name).className = name.toList := by
  have ends : (name ++ "Impl.cpp").toList.getLast? = some 'p' := by
    rw [String.toList_append, List.getLast?_append]
    rfl
  simp only [Path.className, implSource, ends]
  exact rdrop_ending name rfl

theorem xsdNameToCxx_start [CaseTable] {name : String} {c : Char} {rest : List Char}
    (starts : (xsdNameToCxx name).toList = c :: rest) : c.isLower = false := by
  rw [xsdNameToCxx] at starts
  cases letters : (localName name).toList with
  | nil =>
      simp only [letters] at starts
      cases starts
  | cons head tail =>
      simp only [letters, String.toList_ofList] at starts
      cases raised : CaseTable.upper head with
      | nil => exact absurd raised (CaseTable.upper_ne_nil head)
      | cons first others =>
          rw [raised, List.cons_append, List.cons.injEq] at starts
          rw [← starts.1]
          exact CaseTable.upper_isLower head first (by simp [raised])

theorem xsdNameToCxx_ne [CaseTable] {name : String} {c : Char} {rest : List Char}
    (lower : c.isLower = true) :
    (xsdNameToCxx name).toList ≠ c :: rest := by
  intro starts
  rw [xsdNameToCxx_start starts] at lower
  cases lower

end Names

section Paths

variable {elems : List GlobalElementModel} {m other : TypeModel} {path : Path}

theorem mem_typePaths [CaseTable] : path ∈ (typeFiles elems m).map Prod.fst ↔
    path = typeHeader (cxxName m) ∨ m.isSimpleRestriction = false ∧
      (path = implHeader (cxxName m) ∨ path = implSource (cxxName m) ∨
        path = cdrSource (cxxName m) ∨ path = jsonSource (cxxName m)) := by
  rw [typeFiles, List.map_cons, List.mem_cons]
  cases m.isSimpleRestriction with
  | true => simp
  | false => simp

theorem className_of_typePaths [CaseTable] (member : path ∈ (typeFiles elems m).map Prod.fst) :
    path.className = (cxxName m).toList := by
  rcases mem_typePaths.mp member with rfl | ⟨_, rfl | rfl | rfl | rfl⟩
  · exact className_typeHeader _
  · exact className_implHeader _
  · exact className_implSource _
  · exact className_cdrSource _
  · exact className_jsonSource _

theorem implHeader_ne_implSource (left right : String) : implHeader left ≠ implSource right := by
  intro same
  have ends := congrArg (fun path : Path => path.name.toList.getLast?) same
  simp only [implHeader, implSource, String.toList_append, List.getLast?_append] at ends
  cases ends

theorem nodup_typePaths [CaseTable] : ((typeFiles elems m).map Prod.fst).Nodup := by
  have apart := implHeader_ne_implSource (cxxName m) (cxxName m)
  cases simple : m.isSimpleRestriction with
  | true => simp [typeFiles, simple]
  | false =>
      simp only [typeFiles, simple, Bool.false_eq_true, if_false, List.map_cons, List.map_nil,
        List.nodup_cons, List.mem_cons, List.not_mem_nil, or_false, not_or, not_false_iff,
        List.nodup_nil, and_true]
      refine ⟨⟨?_, ?_, ?_, ?_⟩, ⟨apart, ?_, ?_⟩, ⟨?_, ?_⟩, ?_⟩
      all_goals
        intro same
        cases congrArg Path.dir same

theorem disjoint_typePaths [CaseTable] :
    ((typeFiles elems m).map Prod.fst).Disjoint ((typeFiles elems other).map Prod.fst) ↔
      cxxName m ≠ cxxName other := by
  constructor
  · intro apart same
    refine apart (mem_typePaths.mpr (Or.inl rfl)) (mem_typePaths.mpr (Or.inl ?_))
    rw [same]
  · intro apart path one two
    apply apart
    rw [← String.toList_inj, ← className_of_typePaths one, className_of_typePaths two]

end Paths

namespace Output

variable {output : Output}

def fixedPaths : List Path :=
  [⟨.type, "accessorType.h"⟩, ⟨.cdr, "cdr_register_all.cpp"⟩, ⟨.json, "json_register_all.cpp"⟩,
    ⟨.cdr, "accessor_factory_all.cpp"⟩]

theorem fixedPaths_lower {path : Path} (fixed : path ∈ fixedPaths) :
    ∃ c rest, path.className = c :: rest ∧ c.isLower = true := by
  simp only [fixedPaths, List.mem_cons, List.not_mem_nil, or_false] at fixed
  rcases fixed with rfl | rfl | rfl | rfl
  · exact ⟨'a', "ccessorType".toList, by decide +kernel, by decide⟩
  · exact ⟨'c', "dr_register".toList, by decide +kernel, by decide⟩
  · exact ⟨'j', "son_registe".toList, by decide +kernel, by decide⟩
  · exact ⟨'a', "ccessor_factory".toList, by decide +kernel, by decide⟩

theorem fixedPaths_apart [CaseTable] {path : Path} {name : String}
    (named : path.className = (xsdNameToCxx name).toList) : path ∉ fixedPaths := by
  intro fixed
  obtain ⟨c, rest, starts, lower⟩ := fixedPaths_lower fixed
  exact xsdNameToCxx_ne lower (named.symm.trans starts)

theorem paths_perm [CaseTable] : output.paths.Perm
    ((output.typeModels.flatMap fun m => (typeFiles output.globalElements m).map Prod.fst) ++
      output.globalElements.map (fun elem => typeHeader (elementClass elem)) ++ fixedPaths) := by
  have whole : output.paths =
      (output.typeModels.flatMap fun m => (typeFiles output.globalElements m).map Prod.fst) ++
        (fixedPaths.take 3 ++
          (output.globalElements.map (fun elem => typeHeader (elementClass elem)) ++
            fixedPaths.drop 3)) := by
    simp only [paths, written, List.map_append, List.map_flatMap, List.map_map, List.append_assoc]
    rfl
  rw [whole, List.append_assoc]
  apply List.Perm.append_left
  rw [← List.append_assoc]
  refine (List.perm_append_comm.append_right _).trans ?_
  rw [List.append_assoc, List.take_append_drop]

theorem mem_paths_iff [CaseTable] {path : Path} : path ∈ output.paths ↔
    (∃ m ∈ output.typeModels, path ∈ (typeFiles output.globalElements m).map Prod.fst) ∨
      (∃ elem ∈ output.globalElements, typeHeader (elementClass elem) = path) ∨
        path ∈ fixedPaths := by
  rw [paths_perm.mem_iff, List.mem_append, List.mem_append, List.mem_flatMap, List.mem_map, or_assoc]

theorem nodup_paths_iff [CaseTable] : output.paths.Nodup ↔
    (output.typeModels.map cxxName ++ output.globalElements.map elementClass).Nodup := by
  have fixed : ∀ path ∈
      (output.typeModels.flatMap fun m => (typeFiles output.globalElements m).map Prod.fst) ++
        output.globalElements.map (fun elem => typeHeader (elementClass elem)),
      path ∉ fixedPaths := by
    intro path member
    cases List.mem_append.mp member with
    | inl ofType =>
        obtain ⟨m, _, among⟩ := List.mem_flatMap.mp ofType
        exact fixedPaths_apart (className_of_typePaths among)
    | inr ofElement =>
        obtain ⟨elem, _, same⟩ := List.mem_map.mp ofElement
        rw [← same]
        exact fixedPaths_apart (className_typeHeader _)
  have injective : Function.Injective typeHeader := by
    intro left right same
    have names := congrArg Path.className same
    rw [className_typeHeader, className_typeHeader] at names
    exact String.toList_inj.mp names
  have elements : (output.globalElements.map fun elem => typeHeader (elementClass elem)).Nodup ↔
      (output.globalElements.map elementClass).Nodup := by
    rw [← List.nodup_map_iff injective, List.map_map]
    rfl
  have types :
      (output.typeModels.flatMap fun m => (typeFiles output.globalElements m).map Prod.fst).Nodup ↔
        (output.typeModels.map cxxName).Nodup := by
    have names : (output.typeModels.map cxxName).Nodup ↔
        output.typeModels.Pairwise fun m other => cxxName m ≠ cxxName other := List.pairwise_map
    rw [List.nodup_flatMap, names]
    constructor
    · intro both
      exact both.2.imp disjoint_typePaths.mp
    · intro apart
      exact ⟨fun m _ => nodup_typePaths, apart.imp disjoint_typePaths.mpr⟩
  rw [paths_perm.nodup_iff, List.nodup_append, List.nodup_append, List.nodup_append, types,
    elements]
  constructor
  · rintro ⟨⟨typesApart, elementsApart, between⟩, _⟩
    refine ⟨typesApart, elementsApart, ?_⟩
    intro name ofType name' ofElement same
    obtain ⟨m, member, isName⟩ := List.mem_map.mp ofType
    obtain ⟨elem, isElement, isName'⟩ := List.mem_map.mp ofElement
    refine between (typeHeader (cxxName m)) ?_ (typeHeader (elementClass elem)) ?_ ?_
    · exact List.mem_flatMap.mpr ⟨m, member, mem_typePaths.mpr (Or.inl rfl)⟩
    · exact List.mem_map.mpr ⟨elem, isElement, rfl⟩
    · rw [isName, isName', same]
  · rintro ⟨typesApart, elementsApart, between⟩
    refine ⟨⟨typesApart, elementsApart, ?_⟩, by decide, ?_⟩
    · intro path ofType path' ofElement same
      obtain ⟨m, member, among⟩ := List.mem_flatMap.mp ofType
      obtain ⟨elem, isElement, isPath'⟩ := List.mem_map.mp ofElement
      refine between (cxxName m) (List.mem_map_of_mem member) (elementClass elem)
        (List.mem_map_of_mem isElement) ?_
      rw [← String.toList_inj, ← className_of_typePaths among, same, ← isPath',
        className_typeHeader]
    · intro path member path' isFixed same
      exact fixed path member (same ▸ isFixed)

/-- Every selected type's class definition is on the disk, in the file named after it. -/
def OnDisk [CaseTable] (output : Output) (before : Disk) : Prop :=
  ∀ m ∈ output.typeModels, output.disk before (typeHeader (cxxName m)) =
    some (.type m (globalElementFor output.globalElements m.name))

/-- No two of the types and elements have the same class name. -/
structure ClassNamesApart [CaseTable] (output : Output) : Prop where
  types : ∀ m ∈ output.typeModels, ∀ other ∈ output.typeModels,
    cxxName m = cxxName other → m.name = other.name
  elements : ∀ elem ∈ output.globalElements, ∀ other ∈ output.globalElements,
    elementClass elem = elementClass other → elem.name = other.name
  between : ∀ m ∈ output.typeModels, ∀ elem ∈ output.globalElements,
    cxxName m ≠ elementClass elem

theorem onDisk_of_nodup [CaseTable] (apart : output.paths.Nodup) (before : Disk) :
    output.OnDisk before := by
  intro m member
  have file : (typeHeader (cxxName m), Text.type m (globalElementFor output.globalElements m.name)) ∈
      output.written := by
    simp only [written, List.append_assoc]
    refine List.mem_append_left _ (List.mem_flatMap.mpr ⟨m, member, ?_⟩)
    exact List.mem_cons_self
  have found : output.written.reverse.lookup (typeHeader (cxxName m)) =
      some (.type m (globalElementFor output.globalElements m.name)) := by
    apply lookup_of_mem
    · rw [List.map_reverse, List.nodup_reverse]
      exact apart
    · exact List.mem_reverse.mpr file
  simp only [disk, found]

end Output

section Runs

variable {schema : SchemaModel} {config : Option SubsetConfig} {output : Output}

theorem sublist_globalElements [CaseTable] {globals : List GlobalElementModel}
    {typeModels : List TypeModel}
    (run : selected schema config = .ok (globals, typeModels)) :
    globals.Sublist schema.globalElements := by
  cases config with
  | none =>
      cases run
      exact List.Sublist.refl _
  | some config =>
      rcases selectSubset_ok.mp run with ⟨selectedGlobals, selectedTypeRoots, _, _, rfl, rfl⟩
      exact List.filter_sublist

/-- No file of a run is overwritten, and every class definition is there at its end, exactly
when the class names of the selected types and elements are apart. -/
theorem files_apart [CaseTable]
    (elements : (schema.globalElements.map GlobalElementModel.name).Nodup)
    (compiled : compile schema config = .ok output) (before : Disk) :
    (output.paths.Nodup ∧ output.OnDisk before) ↔ output.ClassNamesApart := by
  obtain ⟨run, _⟩ := compile_ok compiled
  have typeNames : (output.typeModels.map TypeModel.name).Nodup :=
    schema.nodupNames.sublist ((closed_selected run).sublist.map _)
  have elementNames : (output.globalElements.map GlobalElementModel.name).Nodup :=
    elements.sublist ((sublist_globalElements run).map _)
  have iff := output.nodup_paths_iff
  rw [List.nodup_append] at iff
  constructor
  · intro given
    obtain ⟨typesApart, elementsApart, between⟩ := iff.mp given.1
    constructor
    · intro m member other isOther same
      rw [List.inj_on_of_nodup_map typesApart member isOther same]
    · intro elem member other isOther same
      rw [List.inj_on_of_nodup_map elementsApart member isOther same]
    · intro m member elem isElement
      exact between _ (List.mem_map_of_mem member) _ (List.mem_map_of_mem isElement)
  · intro apart
    have nodup : output.paths.Nodup := by
      refine iff.mpr ⟨?_, ?_, ?_⟩
      · refine (List.nodup_map_iff_inj_on typeNames.of_map).mpr ?_
        intro m member other isOther same
        exact List.inj_on_of_nodup_map typeNames member isOther
          (apart.types m member other isOther same)
      · refine (List.nodup_map_iff_inj_on elementNames.of_map).mpr ?_
        intro elem member other isOther same
        exact List.inj_on_of_nodup_map elementNames member isOther
          (apart.elements elem member other isOther same)
      · intro name ofType name' ofElement same
        obtain ⟨m, member, isName⟩ := List.mem_map.mp ofType
        obtain ⟨elem, isElement, isName'⟩ := List.mem_map.mp ofElement
        exact apart.between m member elem isElement (isName.trans (same.trans isName'.symm))
    exact ⟨nodup, Output.onDisk_of_nodup nodup before⟩

end Runs

section Samples

attribute [local instance] latinCase

def sameNameSchema : SchemaModel where
  types := [⟨"Track", .complex [⟨"speed", "double", 1, 1⟩] [] none⟩]
  globalElements := [⟨"Track", "Track"⟩]
  nodupNames := by decide

/-- The header of the element takes the place of the class it includes. -/
theorem element_header_replaces_class : ∃ output, compile sameNameSchema none = .ok output ∧
    (sameNameSchema.globalElements.map GlobalElementModel.name).Nodup ∧
    output.typeModels = sameNameSchema.types ∧
    output.disk (fun _ => none) (typeHeader "Track") = some (.globalElement ⟨"Track", "Track"⟩) :=
  ⟨_, rfl, by decide, rfl, by decide +kernel⟩

/-- The whole sample schema. -/
theorem files_apart_sample : ∃ output, compile sampleSchema none = .ok output ∧
    output.paths.Nodup ∧ output.OnDisk fun _ => none := by
  obtain ⟨output, compiled, all⟩ : ∃ output, compile sampleSchema none = .ok output ∧
      output.typeModels = sampleSchema.types := compile_of_typeModels (by decide +kernel)
  obtain ⟨run, _⟩ := compile_ok compiled
  injection run with both
  injection both with elements types
  refine ⟨output, compiled, (files_apart (by decide) compiled _).mpr ?_⟩
  constructor
  · rw [← types]
    decide +kernel
  · rw [← elements]
    decide +kernel
  · rw [← types, ← elements]
    decide +kernel

end Samples

end Arcal.Compiler
