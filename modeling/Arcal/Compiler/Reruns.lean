import Arcal.Compiler.Files
import Arcal.Lib.Incremental

/-! Run after run of `main` over the same directories: what a run finds there comes from
earlier runs, of other schemas and subsets, some of which failed on the way. -/

namespace Arcal.Compiler

open Schema Incremental

/-- The output directories, each file with its bytes and the run that last wrote it. -/
abbrev OutTree := Tree Path Bytes

def accessorTypeFile (typeModels : List TypeModel) : Path × Text :=
  (⟨.type, "accessorType.h"⟩, .accessorTypeH typeModels)

def registerCdrFile (typeModels : List TypeModel) : Path × Text :=
  (⟨.cdr, "cdr_register_all.cpp"⟩, .cdrRegisterAll typeModels)

def registerJsonFile (typeModels : List TypeModel) : Path × Text :=
  (⟨.json, "json_register_all.cpp"⟩, .jsonRegisterAll typeModels)

section Written

variable (globalElements : List GlobalElementModel) (typeModels : List TypeModel)

def writtenTypeHeaders [CaseTable] : List String :=
  typeModels.map (fun m => cxxName m ++ ".h") ++
    "accessorType.h" :: globalElements.map fun elem => elementClass elem ++ ".h"

def writtenCdrSources [CaseTable] : List String :=
  (concreteTypes typeModels).map (fun m => cxxName m ++ "_cdr.cpp") ++
    ["cdr_register_all.cpp", "accessor_factory_all.cpp"]

def writtenImplHeaders [CaseTable] : List String :=
  (concreteTypes typeModels).map fun m => cxxName m ++ "Impl.h"

def writtenImplSources [CaseTable] : List String :=
  (concreteTypes typeModels).map fun m => cxxName m ++ "Impl.cpp"

def writtenJsonSources [CaseTable] : List String :=
  (concreteTypes typeModels).map (fun m => cxxName m ++ "_json.cpp") ++ ["json_register_all.cpp"]

end Written

def stale (existing : OutTree) (dir : OutDir) (ending : String) (written : List String)
    (path : Path) : Bool :=
  path.dir = dir && ending.toList.isSuffixOf path.name.toList && (existing path).isSome &&
    !written.contains path.name

def removeStale [CaseTable] (existing : OutTree) (globalElements : List GlobalElementModel)
    (typeModels : List TypeModel) (tree : OutTree) : OutTree :=
  let tree := removeIf
    (stale existing .type ".h" (writtenTypeHeaders globalElements typeModels)) tree
  let tree := removeIf (stale existing .cdr ".cpp" (writtenCdrSources typeModels)) tree
  let tree := removeIf (stale existing .impl ".h" (writtenImplHeaders typeModels)) tree
  let tree := removeIf (stale existing .impl ".cpp" (writtenImplSources typeModels)) tree
  removeIf (stale existing .json ".cpp" (writtenJsonSources typeModels)) tree

section Main

-- `render` stands for the templates: the bytes of a text, for the schema its types refer to.
variable (render : SchemaModel → Text → Bytes) (now : Nat) (schema : SchemaModel)

def writeFiles (tree : OutTree) (files : List (Path × Text)) : OutTree :=
  putAll now tree (files.map fun file => (file.1, render schema file.2))

/-- `main`: the directories it leaves, and the error that ends it if one does. A request for
something unknown ends it before anything is written, two types with one tag end it after the
files of the types. -/
def main [CaseTable] (config : Option SubsetConfig) (before : OutTree) : OutTree × Option Bytes :=
  match selected schema config with
  | .error message => (before, some message)
  | .ok (globalElements, typeModels) =>
      let types := writeFiles render now schema before
        (typeModels.flatMap (typeFiles globalElements) ++ [accessorTypeFile typeModels])
      match renderCdrRegisterAll typeModels with
      | .error message => (types, some message)
      | .ok _ =>
          let all := writeFiles render now schema types
            (registerCdrFile typeModels :: registerJsonFile typeModels ::
              globalElements.map elementFile ++ [factoryFile globalElements])
          (removeStale before globalElements typeModels all, none)

end Main

structure Run where
  schema : SchemaModel
  config : Option SubsetConfig
  now : Nat

def after [CaseTable] (render : SchemaModel → Text → Bytes) (runs : List Run) (tree : OutTree) :
    OutTree :=
  runs.foldl (fun tree r => (main render r.now r.schema r.config tree).1) tree

section Stale

variable {output : Output} {name : String}

theorem mem_concreteTypes {typeModels : List TypeModel} {m : TypeModel} :
    m ∈ concreteTypes typeModels ↔ m ∈ typeModels ∧ m.isSimpleRestriction = false := by
  simp [concreteTypes]

theorem mem_paths_type [CaseTable] : (⟨.type, name⟩ : Path) ∈ output.paths ↔
    name ∈ writtenTypeHeaders output.globalElements output.typeModels := by
  rw [Output.mem_paths_iff]
  simp [mem_typePaths, typeHeader, implHeader, implSource, cdrSource, jsonSource,
    writtenTypeHeaders, Output.fixedPaths, @eq_comm _ name, or_comm]

theorem mem_paths_cdr [CaseTable] : (⟨.cdr, name⟩ : Path) ∈ output.paths ↔
    name ∈ writtenCdrSources output.typeModels := by
  rw [Output.mem_paths_iff]
  simp [mem_typePaths, typeHeader, implHeader, implSource, cdrSource, jsonSource,
    writtenCdrSources, Output.fixedPaths, @eq_comm _ name, mem_concreteTypes, and_assoc]

theorem mem_paths_json [CaseTable] : (⟨.json, name⟩ : Path) ∈ output.paths ↔
    name ∈ writtenJsonSources output.typeModels := by
  rw [Output.mem_paths_iff]
  simp [mem_typePaths, typeHeader, implHeader, implSource, cdrSource, jsonSource,
    writtenJsonSources, Output.fixedPaths, @eq_comm _ name, mem_concreteTypes, and_assoc]

theorem mem_paths_impl [CaseTable] : (⟨.impl, name⟩ : Path) ∈ output.paths ↔
    name ∈ writtenImplHeaders output.typeModels ∨ name ∈ writtenImplSources output.typeModels := by
  rw [Output.mem_paths_iff]
  simp [mem_typePaths, typeHeader, implHeader, implSource, cdrSource, jsonSource,
    writtenImplHeaders, writtenImplSources, Output.fixedPaths, @eq_comm _ name,
    mem_concreteTypes, and_assoc, and_or_left, exists_or]

theorem ends_append (start : String) {ending whole : String}
    (ends : ending.toList <:+ whole.toList) :
    ending.toList.isSuffixOf (start ++ whole).toList = true := by
  rw [List.isSuffixOf_iff_suffix, String.toList_append]
  exact ends.trans (List.suffix_append _ _)

theorem header_suffix : ".h".toList <:+ "Impl.h".toList := by decide

theorem source_suffix : ".cpp".toList <:+ "Impl.cpp".toList := by decide

theorem globbed_typePaths [CaseTable] {elems : List GlobalElementModel} {m : TypeModel}
    {path : Path}
    (member : path ∈ (typeFiles elems m).map Prod.fst) : globbed path = true := by
  rcases mem_typePaths.mp member with rfl | ⟨_, rfl | rfl | rfl | rfl⟩
  · simp only [globbed, typeHeader]
    exact ends_append _ (List.suffix_refl _)
  · simp only [globbed, implHeader, Bool.or_eq_true]
    exact .inl (ends_append _ header_suffix)
  · simp only [globbed, implSource, Bool.or_eq_true]
    exact .inr (ends_append _ source_suffix)
  · simp only [globbed, cdrSource]
    exact ends_append _ (by decide)
  · simp only [globbed, jsonSource]
    exact ends_append _ (by decide)

theorem globbed_fixedPaths {path : Path} (fixed : path ∈ Output.fixedPaths) :
    globbed path = true := by
  revert path
  decide

theorem globbed_paths [CaseTable] {path : Path} (member : path ∈ output.paths) :
    globbed path = true := by
  rcases Output.mem_paths_iff.mp member with ⟨m, _, among⟩ | ⟨elem, _, same⟩ | fixed
  · exact globbed_typePaths among
  · rw [← same]
    simp only [globbed, typeHeader]
    exact ends_append _ (List.suffix_refl _)
  · exact globbed_fixedPaths fixed

theorem last_of_ends {ending : String} {last : Char} (isLast : ending.toList.getLast? = some last)
    (ends : ending.toList.isSuffixOf name.toList = true) :
    name.toList.getLast? = some last := by
  obtain ⟨start, same⟩ := List.isSuffixOf_iff_suffix.mp ends
  rw [← same, List.getLast?_append, isLast]
  rfl

theorem not_both_endings (header : ".h".toList.isSuffixOf name.toList = true) :
    ".cpp".toList.isSuffixOf name.toList = false := by
  rw [Bool.eq_false_iff]
  intro source
  have one : name.toList.getLast? = some 'h' := last_of_ends rfl header
  have other : name.toList.getLast? = some 'p' := last_of_ends rfl source
  rw [one] at other
  cases other

theorem header_of_written [CaseTable] {typeModels : List TypeModel}
    (written : name ∈ writtenImplHeaders typeModels) :
    ".h".toList.isSuffixOf name.toList = true := by
  obtain ⟨m, _, same⟩ := List.mem_map.mp written
  rw [← same]
  exact ends_append _ header_suffix

theorem source_of_written [CaseTable] {typeModels : List TypeModel}
    (written : name ∈ writtenImplSources typeModels) :
    ".cpp".toList.isSuffixOf name.toList = true := by
  obtain ⟨m, _, same⟩ := List.mem_map.mp written
  rw [← same]
  exact ends_append _ source_suffix

theorem stale_impl [CaseTable] {typeModels : List TypeModel} :
    (".h".toList.isSuffixOf name.toList = true ∧ name ∉ writtenImplHeaders typeModels ∨
        ".cpp".toList.isSuffixOf name.toList = true ∧ name ∉ writtenImplSources typeModels) ↔
      (".h".toList.isSuffixOf name.toList = true ∨ ".cpp".toList.isSuffixOf name.toList = true) ∧
        name ∉ writtenImplHeaders typeModels ∧ name ∉ writtenImplSources typeModels := by
  have noSource : ".h".toList.isSuffixOf name.toList = true →
      name ∉ writtenImplSources typeModels := by
    intro header written
    have source := source_of_written written
    rw [not_both_endings header] at source
    cases source
  have noHeader : ".cpp".toList.isSuffixOf name.toList = true →
      name ∉ writtenImplHeaders typeModels := by
    intro source written
    rw [not_both_endings (header_of_written written)] at source
    cases source
  constructor
  · intro either
    cases either with
    | inl header => exact ⟨.inl header.1, header.2, noSource header.1⟩
    | inr source => exact ⟨.inr source.1, noHeader source.1, source.2⟩
  · intro both
    cases both.1 with
    | inl header => exact .inl ⟨header, both.2.1⟩
    | inr source => exact .inr ⟨source, both.2.2⟩

def isStale [CaseTable] (existing : OutTree) (output : Output) (path : Path) : Bool :=
  stale existing .type ".h" (writtenTypeHeaders output.globalElements output.typeModels) path ||
    stale existing .cdr ".cpp" (writtenCdrSources output.typeModels) path ||
    stale existing .impl ".h" (writtenImplHeaders output.typeModels) path ||
    stale existing .impl ".cpp" (writtenImplSources output.typeModels) path ||
    stale existing .json ".cpp" (writtenJsonSources output.typeModels) path

theorem removeStale_eq [CaseTable] (existing tree : OutTree) :
    removeStale existing output.globalElements output.typeModels tree =
      removeIf (isStale existing output) tree := by
  simp only [removeStale, removeIf_removeIf]
  rfl

/-- What an earlier run left under a name that this one has not written. -/
theorem isStale_iff [CaseTable] {existing : OutTree} {path : Path} :
    isStale existing output path = true ↔
    globbed path = true ∧ (existing path).isSome = true ∧ path ∉ output.paths := by
  obtain ⟨dir, name⟩ := path
  cases dir with
  | type =>
      rw [mem_paths_type]
      simp [isStale, stale, globbed, and_assoc]
  | impl =>
      rw [mem_paths_impl, not_or]
      have halves : isStale existing output ⟨.impl, name⟩ = true ↔
          (".h".toList.isSuffixOf name.toList = true ∧
              name ∉ writtenImplHeaders output.typeModels ∨
            ".cpp".toList.isSuffixOf name.toList = true ∧
              name ∉ writtenImplSources output.typeModels) ∧
            (existing ⟨.impl, name⟩).isSome = true := by
        simp [isStale, stale, or_and_right, and_right_comm]
      rw [halves, stale_impl, globbed, Bool.or_eq_true, and_assoc]
      exact and_congr_right fun _ => and_comm
  | cdr =>
      rw [mem_paths_cdr]
      simp [isStale, stale, globbed, and_assoc]
  | json =>
      rw [mem_paths_json]
      simp [isStale, stale, globbed, and_assoc]

end Stale

section Runs

variable {render : SchemaModel → Text → Bytes} {now : Nat} {schema : SchemaModel}
  {config : Option SubsetConfig} {output : Output} {before tree : OutTree}
  {files : List (Path × Text)} {path : Path}

theorem writeFiles_append (more : List (Path × Text)) :
    writeFiles render now schema tree (files ++ more) =
      writeFiles render now schema (writeFiles render now schema tree files) more := by
  rw [writeFiles, List.map_append, putAll_append]
  rfl

theorem writeFiles_other (apart : path ∉ files.map Prod.fst) :
    writeFiles render now schema tree files path = tree path := by
  apply putAll_other
  rw [List.map_map]
  exact apart

theorem lookup_rendered (render : Text → Bytes) (files : List (Path × Text)) (path : Path) :
    (files.map fun file => (file.1, render file.2)).lookup path =
      (files.lookup path).map render := by
  induction files with
  | nil => rfl
  | cons file rest ih =>
      rw [List.map_cons, List.lookup_cons, List.lookup_cons]
      cases path == file.1 with
      | true => rfl
      | false => exact ih

theorem contents_writeFiles : contents (writeFiles render now schema tree files) path =
    ((files.reverse.lookup path).map (render schema)).or (contents tree path) := by
  rw [writeFiles, contents_putAll, ← List.map_reverse, lookup_rendered]

theorem main_ok [CaseTable] (compiled : compile schema config = .ok output) :
    main render now schema config before =
      (removeIf (isStale before output) (writeFiles render now schema before output.written),
        none) := by
  obtain ⟨run, tags, _⟩ := compile_ok compiled
  have registers : renderCdrRegisterAll output.typeModels =
      .ok (cdrTypeEntries output.typeModels) := by
    rw [renderCdrRegisterAll, tags]
    rfl
  have inTurn : output.written =
      (output.typeModels.flatMap (typeFiles output.globalElements) ++
        [accessorTypeFile output.typeModels]) ++
      (registerCdrFile output.typeModels :: registerJsonFile output.typeModels ::
        output.globalElements.map elementFile ++ [factoryFile output.globalElements]) := by
    simp only [Output.written, registerFiles, accessorTypeFile, registerCdrFile, registerJsonFile,
      List.append_assoc, List.cons_append, List.nil_append]
  simp only [main, run, registers]
  rw [removeStale_eq, inTurn, ← writeFiles_append]

theorem main_error [CaseTable] : (main render now schema config before).2 =
    match compile schema config with
    | .error message => some message
    | .ok _ => none := by
  cases compiled : compile schema config with
  | ok output => rw [main_ok compiled]
  | error message =>
      unfold compile at compiled
      cases run : selected schema config with
      | error other =>
          rw [run] at compiled
          cases compiled
          simp only [main, run]
      | ok both =>
          obtain ⟨globalElements, typeModels⟩ := both
          rw [run] at compiled
          cases registers : renderCdrRegisterAll typeModels with
          | error other =>
              simp only [bind, Except.bind, registers] at compiled
              cases compiled
              simp only [main, run, registers]
          | ok entries =>
              simp only [bind, Except.bind, registers] at compiled
              cases compiled

theorem main_apart [CaseTable] (apart : globbed path = false) :
    (main render now schema config before).1 path = before path := by
  cases run : selected schema config with
  | error message => simp only [main, run]
  | ok both =>
      obtain ⟨globalElements, typeModels⟩ := both
      have types : path ∉ (typeModels.flatMap (typeFiles globalElements) ++
          [accessorTypeFile typeModels]).map Prod.fst := by
        rw [List.map_append, List.map_flatMap, List.mem_append, List.mem_flatMap]
        rintro (⟨m, _, among⟩ | fixed)
        · rw [globbed_typePaths among] at apart
          cases apart
        · rw [List.mem_singleton.mp fixed] at apart
          change globbed ⟨.type, "accessorType.h"⟩ = false at apart
          revert apart
          decide
      cases registers : renderCdrRegisterAll typeModels with
      | error message =>
          simp only [main, run, registers]
          exact writeFiles_other types
      | ok entries =>
          have compiled : ∃ output, compile schema config = .ok output := by
            simp only [compile, run, registers, bind, Except.bind, pure, Except.pure]
            exact ⟨_, rfl⟩
          obtain ⟨output, compiled⟩ := compiled
          have unread : path ∉ output.paths := by
            intro member
            rw [globbed_paths member] at apart
            cases apart
          have kept : ¬ isStale before output path = true := by
            intro gone
            rw [(isStale_iff.mp gone).1] at apart
            cases apart
          simp only [main_ok compiled, removeIf, if_neg kept]
          exact writeFiles_other unread

theorem after_apart [CaseTable] (apart : globbed path = false) (runs : List Run) :
    after render runs tree path = tree path := by
  induction runs generalizing tree with
  | nil => rfl
  | cons first rest ih => exact ih.trans (main_apart apart)

theorem mem_paths_of_lookup [CaseTable] {text : Text}
    (found : output.written.reverse.lookup path = some text) : (path, text) ∈ output.written :=
  List.mem_reverse.mp (Table.lookup_eq_some found)

/-- What one run leaves: under the names it looks for its own files, elsewhere what was
there. -/
theorem contents_main [CaseTable] (compiled : compile schema config = .ok output) :
    contents (main render now schema config before).1 path =
      if globbed path then (output.disk (fun _ => none) path).map (render schema)
      else contents before path := by
  cases looked : globbed path with
  | false =>
      rw [contents, main_apart looked, contents]
      rfl
  | true =>
      have disk : output.disk (fun _ => none) path = output.written.reverse.lookup path := by
        rw [Output.disk]
        cases output.written.reverse.lookup path <;> simp
      simp only [main_ok compiled, if_true, disk, contents, removeIf]
      have written : contents (writeFiles render now schema before output.written) path =
          ((output.written.reverse.lookup path).map (render schema)).or (contents before path) :=
        contents_writeFiles
      cases found : output.written.reverse.lookup path with
      | some text =>
          have member : path ∈ output.paths :=
            List.mem_map_of_mem (mem_paths_of_lookup found)
          have kept : ¬ isStale before output path = true := fun gone =>
            (isStale_iff.mp gone).2.2 member
          rw [if_neg kept]
          rw [found] at written
          exact written
      | none =>
          rw [found] at written
          split
          · rfl
          · next kept =>
            have missing : path ∉ output.paths := by
              have none' := Table.lookup_eq_none found
              rw [List.map_reverse, List.mem_reverse] at none'
              exact none'
            have nothing : before path = none := by
              cases there : before path with
              | none => rfl
              | some file =>
                  have gone : isStale before output path = true :=
                    isStale_iff.mpr ⟨looked, by rw [there]; rfl, missing⟩
                  exact absurd gone kept
            have empty : contents before path = none := by rw [contents, nothing]; rfl
            rw [empty] at written
            exact written

/-- Whatever runs came before, of whatever schemas and subsets, whether they ended well or
not: under the names the compiler looks for a run leaves its own files and no others, each
with the text written last, and every other file is as it was at the start. -/
theorem main_forgets [CaseTable] (render : SchemaModel → Text → Bytes) (now : Nat)
    (compiled : compile schema config = .ok output) (earlier : List Run) (start : OutTree)
    (path : Path) :
    contents (main render now schema config (after render earlier start)).1 path =
      if globbed path then (output.disk (fun _ => none) path).map (render schema)
      else contents start path := by
  rw [contents_main compiled]
  cases looked : globbed path with
  | true => rfl
  | false =>
      have untouched : after render earlier start path = start path := after_apart looked earlier
      simp only [Bool.false_eq_true, if_false, contents, untouched]

end Runs

section Sample

attribute [local instance] latinCase

def trackOnly : SchemaModel where
  types := [⟨"TrackMT", .complex [⟨"speed", "double", 1, 1⟩] [] none⟩]
  globalElements := [⟨"Track", "TrackMT"⟩]
  nodupNames := by decide

/-- A run of the sample schema, one that fails, and then one of a single type: the handler of
`Header` is gone again. -/
theorem main_forgets_header : ∃ output, compile trackOnly none = .ok output ∧
    contents (main (fun _ _ => [1]) 3 trackOnly none
      (after (fun _ _ => [1]) [⟨sampleSchema, none, 1⟩, ⟨trackOnly, some ⟨["Gone"], []⟩, 2⟩]
        fun _ => none)).1 (cdrSource "Header") = none := by
  refine ⟨_, rfl, ?_⟩
  rw [main_forgets (fun _ _ => [1]) 3 (show compile trackOnly none = .ok _ from rfl)]
  decide +kernel

end Sample

def Older (now : Nat) (tree : OutTree) : Prop :=
  ∀ path file, tree path = some file → file.stamp ≠ now

/-- No file is written that has that content at the end already. -/
def KeepsStamps [CaseTable] (render : SchemaModel → Text → Bytes) (schema : SchemaModel)
    (config : Option SubsetConfig) : Prop :=
  ∀ now before, Older now before → ∀ path,
    contents (main render now schema config before).1 path = contents before path →
      (main render now schema config before).1 path = before path

section Stamps

variable {render : SchemaModel → Text → Bytes} {now : Nat} {schema : SchemaModel}
  {config : Option SubsetConfig} {output : Output} {before : OutTree} {path : Path}

theorem mem_rendered [CaseTable] {content : Bytes} :
    (path, content) ∈ output.written.map (fun file => (file.1, render schema file.2)) ↔
      ∃ text, (path, text) ∈ output.written ∧ render schema text = content := by
  simp [List.mem_map, Prod.exists]

theorem main_kept_iff [CaseTable] (compiled : compile schema config = .ok output)
    (older : Older now before)
    (member : path ∈ output.paths) :
    (main render now schema config before).1 path = before path ↔
      ∀ text, (path, text) ∈ output.written →
        contents before path = some (render schema text) := by
  have kept : ¬ isStale before output path = true := fun gone => (isStale_iff.mp gone).2.2 member
  simp only [main_ok compiled, removeIf, if_neg kept]
  rw [writeFiles, putAll_kept_iff (older path)]
  constructor
  · intro all text inside
    exact all _ (mem_rendered.mpr ⟨text, inside, rfl⟩)
  · intro all content inside
    obtain ⟨text, written, same⟩ := mem_rendered.mp inside
    rw [← same]
    exact all text written

variable (render) in
theorem contents_written [CaseTable] (compiled : compile schema config = .ok output)
    (member : path ∈ output.paths) : ∃ text, (path, text) ∈ output.written ∧
      ∀ now before, contents (main render now schema config before).1 path =
        some (render schema text) := by
  have looked := globbed_paths member
  cases found : output.written.reverse.lookup path with
  | none =>
      have missing := Table.lookup_eq_none found
      rw [List.map_reverse, List.mem_reverse] at missing
      exact absurd member missing
  | some text =>
      refine ⟨text, mem_paths_of_lookup found, ?_⟩
      intro now before
      rw [contents_main compiled, if_pos looked, Output.disk, found]
      rfl

/-- A path for two texts that differ is written anew by every run. -/
theorem main_renews [CaseTable] (compiled : compile schema config = .ok output)
    {text text' : Text} (one : (path, text) ∈ output.written)
    (other : (path, text') ∈ output.written)
    (differ : render schema text ≠ render schema text') (older : Older now before) :
    (main render now schema config before).1 path ≠ before path := by
  intro kept
  have all := (main_kept_iff compiled older (List.mem_map_of_mem one)).mp kept
  exact differ (Option.some.inj ((all text one).symm.trans (all text' other)))

/-- Runs leave files alone whose content does not change exactly when no two texts that
differ are written to one path; such a path is written anew by every run. -/
theorem keepsStamps_iff [CaseTable] (render : SchemaModel → Text → Bytes)
    (compiled : compile schema config = .ok output) :
    (KeepsStamps render schema config ↔
      ∀ path text text', (path, text) ∈ output.written → (path, text') ∈ output.written →
        render schema text = render schema text') ∧
    ∀ path text text', (path, text) ∈ output.written → (path, text') ∈ output.written →
      render schema text ≠ render schema text' → ∀ now before, Older now before →
        (main render now schema config before).1 path ≠ before path := by
  refine ⟨⟨?_, ?_⟩, fun path text text' one other differ now before older =>
    main_renews compiled one other differ older⟩
  · intro keeps path text text' one other
    have member : path ∈ output.paths := List.mem_map_of_mem one
    obtain ⟨last, _, leaves⟩ := contents_written render compiled member
    -- the directories as an earlier run has left them
    let before : OutTree := fun path =>
      (contents (main render 0 schema config fun _ => none).1 path).map fun content => ⟨content, 0⟩
    have older : Older 1 before := by
      intro path file there
      obtain ⟨content, _, same⟩ := Option.map_eq_some_iff.mp there
      rw [← same]
      exact Nat.zero_ne_one
    have holds : contents before path = some (render schema last) := by
      simp only [before, contents, Option.map_map, Function.comp_def]
      exact leaves 0 fun _ => none
    have kept := keeps 1 before older path ((leaves 1 before).trans holds.symm)
    have all := (main_kept_iff compiled older member).mp kept
    exact Option.some.inj ((all text one).symm.trans (all text' other))
  · intro alike now before older path same
    by_cases member : path ∈ output.paths
    · obtain ⟨last, written, leaves⟩ := contents_written render compiled member
      apply (main_kept_iff compiled older member).mpr
      intro text inside
      rw [← same, leaves, alike path last text written inside]
    · have unwritten : writeFiles render now schema before output.written path = before path :=
        writeFiles_other member
      simp only [main_ok compiled, contents, removeIf] at same ⊢
      split
      · next gone =>
        rw [if_pos gone] at same
        cases there : before path with
        | none => rfl
        | some file =>
            rw [there] at same
            cases same
      · exact unwritten

end Stamps

section Sample

attribute [local instance] latinCase

def textKind (_ : SchemaModel) : Text → Bytes
  | .globalElement _ => [2]
  | _ => [1]

/-- Where an element is named like its type, every run writes the one header twice anew. -/
theorem keepsStamps_iff_same_name : ∃ output, compile sameNameSchema none = .ok output ∧
    ¬ KeepsStamps textKind sameNameSchema none := by
  refine ⟨_, rfl, ?_⟩
  rw [(keepsStamps_iff textKind (show compile sameNameSchema none = .ok _ from rfl)).1]
  intro alike
  have same := alike (typeHeader "Track")
    (.type ⟨"Track", .complex [⟨"speed", "double", 1, 1⟩] [] none⟩ (some ⟨"Track", "Track"⟩))
    (.globalElement ⟨"Track", "Track"⟩) (by decide +kernel) (by decide +kernel)
  revert same
  decide

end Sample

end Arcal.Compiler
