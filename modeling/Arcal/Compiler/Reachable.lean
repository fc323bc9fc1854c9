import Arcal.Compiler.Selection

/-! When the types a subset keeps are those that can be reached from its elements and accessor
roots. The worklist looks up a C++ type among the names of the schema, too, and elements that
share a name are kept together although only one of them is followed. -/

namespace Arcal.Compiler

open Schema Worklist

/-- A type extends another or has a field or a variant of it. An empty base is none. -/
def Mentions (schema : SchemaModel) (from' to' : String) : Prop :=
  ∃ m, schema.find from' = some m ∧
    ((m.baseType = some to' ∧ to' ≠ "") ∨ to' ∈ elementTypes m)

def Reaches (schema : SchemaModel) (starts : List String) (name : String) : Prop :=
  (schema.find name).isSome ∧
    ∃ start ∈ starts, Relation.ReflTransGen (Mentions schema) start name

section Follows

variable {schema : SchemaModel}

/-- No restriction is stored as a C++ type whose name another declared type has. -/
def AliasesApart (schema : SchemaModel) : Prop :=
  ∀ m ∈ schema.types, ∀ base, m.kind = .simpleRestriction base →
    (schema.find (cxxTypeName (restrictionCxxBaseType m.name base))).isSome →
    cxxTypeName (restrictionCxxBaseType m.name base) = m.name

theorem mem_nodes {name : String} :
    name ∈ (typeDependencies schema).nodes ↔ (schema.find name).isSome := by
  constructor
  · intro member
    rcases List.mem_map.mp member with ⟨m, inside, rfl⟩
    rw [schema.find_of_mem inside]
    rfl
  · intro declared
    rcases Option.isSome_iff_exists.mp declared with ⟨m, found⟩
    rw [← SchemaModel.find_name found]
    exact List.mem_map_of_mem (SchemaModel.find_mem found)

theorem edge_iff {from' to' : String} : (typeDependencies schema).Edge from' to' ↔
    ∃ m, schema.find from' = some m ∧ (schema.find to').isSome ∧
      ((modelBaseType m = some to' ∧ to' ≠ "") ∨ to' ∈ elementTypes m) := by
  rw [Dependencies.Edge, mem_nodes]
  cases found : schema.find from' with
  | none => simp
  | some m =>
      simp only [typeDependencies, found, Option.map_some, Option.getD_some, references,
        List.mem_append, List.mem_filter, Option.mem_toList, decide_eq_true_eq,
        Option.isSome_some, true_and, Option.some.injEq, exists_eq_left']
      constructor
      · intro given
        rcases given with ⟨based, proper, declared⟩ | ⟨element, declared⟩
        · exact ⟨declared, .inl ⟨based, proper⟩⟩
        · exact ⟨declared, .inr element⟩
      · intro given
        rcases given with ⟨declared, ⟨based, proper⟩ | element⟩
        · exact .inl ⟨based, proper, declared⟩
        · exact .inr ⟨element, declared⟩

theorem modelBaseType_of_baseType {m : TypeModel} {name : String}
    (based : m.baseType = some name) : modelBaseType m = some name := by
  cases kind : m.kind with
  | complex fields choices baseType =>
      simpa [TypeModel.baseType, modelBaseType, kind] using based
  | enumeration enumValues => simp [TypeModel.baseType, kind] at based
  | simpleRestriction base => simp [TypeModel.baseType, kind] at based

theorem edge_of_mentions {from' to' : String} (mentions : Mentions schema from' to')
    (declared : (schema.find to').isSome) : (typeDependencies schema).Edge from' to' := by
  rcases mentions with ⟨m, found, ⟨based, proper⟩ | element⟩
  · exact edge_iff.mpr ⟨m, found, declared, .inl ⟨modelBaseType_of_baseType based, proper⟩⟩
  · exact edge_iff.mpr ⟨m, found, declared, .inr element⟩

theorem path_of_mentions {from' to' : String}
    (path : Relation.ReflTransGen (Mentions schema) from' to')
    (declared : (schema.find to').isSome) :
    (schema.find from').isSome ∧
      Relation.ReflTransGen (typeDependencies schema).Edge from' to' := by
  induction path using Relation.ReflTransGen.head_induction_on with
  | refl => exact ⟨declared, .refl⟩
  | head mentions _ ih =>
      rcases ih with ⟨between, rest⟩
      refine ⟨?_, .head (edge_of_mentions mentions between) rest⟩
      rcases mentions with ⟨m, found, _⟩
      rw [found]
      rfl

/-- Nothing but references is followed while C++ types are not taken for declared ones. -/
theorem path_of_edges (apart : AliasesApart schema) {from' to' : String}
    (path : Relation.ReflTransGen (typeDependencies schema).Edge from' to') :
    Relation.ReflTransGen (Mentions schema) from' to' := by
  induction path with
  | refl => exact .refl
  | tail _ edge ih =>
      rcases edge_iff.mp edge with ⟨m, found, declared, ⟨based, proper⟩ | element⟩
      · cases kind : m.kind with
        | complex fields choices baseType =>
            refine ih.tail ⟨m, found, .inl ⟨?_, proper⟩⟩
            simpa [TypeModel.baseType, modelBaseType, kind] using based
        | enumeration enumValues => simp [modelBaseType, kind] at based
        | simpleRestriction base =>
            simp only [modelBaseType, kind, Option.some.injEq] at based
            rw [← based] at declared
            have same := apart m (SchemaModel.find_mem found) base kind declared
            rw [← based, same, SchemaModel.find_name found]
            exact ih
      · exact ih.tail ⟨m, found, .inr element⟩

theorem reachable_iff (apart : AliasesApart schema) {starts : List String} {name : String} :
    (typeDependencies schema).Reachable starts name ↔ Reaches schema starts name := by
  constructor
  · intro given
    rcases given with ⟨node, start, member, path⟩
    exact ⟨mem_nodes.mp node, start, member, path_of_edges apart path⟩
  · intro given
    rcases given with ⟨declared, start, member, path⟩
    exact ⟨mem_nodes.mpr declared, start, member, (path_of_mentions path declared).2⟩

theorem mem_collectRequired {globals : List GlobalElementModel} {roots : List String}
    {name : String} : name ∈ collectRequiredTypeNames schema globals roots ↔
      (typeDependencies schema).Reachable
        (globals.map GlobalElementModel.typeName ++ roots) name := by
  rw [collectRequiredTypeNames, Dependencies.mem_collect]
  simp only [Dependencies.Reachable, Dependencies.mem_push, List.not_mem_nil, or_false]

theorem reaches_append {left right : List String} {name : String} :
    Reaches schema (left ++ right) name ↔ Reaches schema left name ∨ Reaches schema right name := by
  constructor
  · intro given
    rcases given with ⟨declared, start, member, path⟩
    rcases List.mem_append.mp member with inLeft | inRight
    · exact .inl ⟨declared, start, inLeft, path⟩
    · exact .inr ⟨declared, start, inRight, path⟩
  · intro given
    rcases given with ⟨declared, start, member, path⟩ | ⟨declared, start, member, path⟩
    · exact ⟨declared, start, List.mem_append_left _ member, path⟩
    · exact ⟨declared, start, List.mem_append_right _ member, path⟩

theorem mentions_nothing {m : TypeModel} {base name other : String}
    (kind : m.kind = .simpleRestriction base) (found : schema.find name = some m)
    (path : Relation.ReflTransGen (Mentions schema) name other) : other = name := by
  rcases Relation.ReflTransGen.cases_head path with same | ⟨next, mentions, _⟩
  · exact same.symm
  · rcases mentions with ⟨m', found', mentioned⟩
    have same : m = m' := Option.some.inj (found.symm.trans found')
    subst same
    simp [TypeModel.baseType, elementTypes, kind] at mentioned

end Follows

/-- An element that is kept brings the types of all elements of its name: they are reached
from the one that was requested. -/
def NamesakesCovered [CaseTable] (schema : SchemaModel) : Prop :=
  ∀ key elem other, (globalLookup schema.globalElements).find key = some elem →
    other ∈ schema.globalElements → other.name = elem.name →
    ∀ name, Reaches schema [other.typeName] name → Reaches schema [elem.typeName] name

/-- The types collected are those that are reached; a subset lists them and the requested
elements in the order of the schema; the order and number of the requests do not matter. -/
structure SelectsReachable [CaseTable] (schema : SchemaModel) : Prop where
  collected : ∀ globals roots name, name ∈ collectRequiredTypeNames schema globals roots ↔
    Reaches schema (globals.map GlobalElementModel.typeName ++ roots) name
  selected : ∀ config globals roots elems types,
    resolveGlobalElements schema config.messageTypes = .ok globals →
    resolveTypeRoots schema config.accessorTypes = .ok roots →
    selectSubset schema config = .ok (elems, types) →
    elems.Sublist schema.globalElements ∧ types.Sublist schema.types ∧
      (∀ elem ∈ schema.globalElements, elem ∈ elems ↔
        elem.name ∈ globals.map GlobalElementModel.name) ∧
      ∀ m ∈ schema.types, m ∈ types ↔
        Reaches schema (elems.map GlobalElementModel.typeName ++ roots) m.name
  anyOrder : ∀ config config' : SubsetConfig,
    (∀ requested, requested ∈ config.messageTypes ↔ requested ∈ config'.messageTypes) →
    (∀ requested, requested ∈ config.accessorTypes ↔ requested ∈ config'.accessorTypes) →
    (selectSubset schema config).toOption = (selectSubset schema config').toOption

section Subsets

variable {schema : SchemaModel}

theorem cxxTypeName_ne_empty (t : CxxType) : cxxTypeName t ≠ "" := by
  cases t <;> decide

theorem aliasesApart_of_collected
    (collected : ∀ globals roots name, name ∈ collectRequiredTypeNames schema globals roots ↔
      Reaches schema (globals.map GlobalElementModel.typeName ++ roots) name) :
    AliasesApart schema := by
  intro m member base kind declared
  have found := schema.find_of_mem member
  have edge : (typeDependencies schema).Edge m.name
      (cxxTypeName (restrictionCxxBaseType m.name base)) := by
    refine edge_iff.mpr ⟨m, found, declared, .inl ⟨?_, cxxTypeName_ne_empty _⟩⟩
    simp only [modelBaseType, kind]
  have reached : cxxTypeName (restrictionCxxBaseType m.name base) ∈
      collectRequiredTypeNames schema [] [m.name] :=
    mem_collectRequired.mpr ⟨mem_nodes.mpr declared, m.name, List.mem_singleton_self _,
      .single edge⟩
  rcases (collected _ _ _).mp reached with ⟨_, start, isStart, path⟩
  rw [List.mem_singleton.mp isStart] at path
  exact mentions_nothing kind found path

theorem reaches_kept [CaseTable] (covered : NamesakesCovered schema) {requests : List String}
    {globals : List GlobalElementModel}
    (resolved : resolveGlobalElements schema requests = .ok globals) (roots : List String)
    (name : String) :
    Reaches schema ((schema.globalElements.filter fun elem =>
        elem.name ∈ globals.map GlobalElementModel.name).map GlobalElementModel.typeName ++ roots)
      name ↔ Reaches schema (globals.map GlobalElementModel.typeName ++ roots) name := by
  rw [reaches_append, reaches_append]
  apply or_congr_left
  constructor
  · intro given
    rcases given with ⟨declared, start, member, path⟩
    rcases List.mem_map.mp member with ⟨other, kept, rfl⟩
    rw [List.mem_filter, decide_eq_true_eq] at kept
    rcases List.mem_map.mp kept.2 with ⟨elem, inside, sameName⟩
    rcases hit_of_resolved resolved inside with ⟨key, _, found⟩
    rcases covered key elem other found kept.1 sameName.symm name
      ⟨declared, _, List.mem_singleton_self _, path⟩ with ⟨_, start, isStart, path'⟩
    rw [List.mem_singleton.mp isStart] at path'
    exact ⟨declared, elem.typeName, List.mem_map_of_mem inside, path'⟩
  · intro given
    rcases given with ⟨declared, start, member, path⟩
    rcases List.mem_map.mp member with ⟨elem, inside, rfl⟩
    rcases hit_of_resolved resolved inside with ⟨key, _, found⟩
    refine ⟨declared, elem.typeName, List.mem_map_of_mem ?_, path⟩
    rw [List.mem_filter, decide_eq_true_eq]
    exact ⟨(firstWith_iff.mpr found).mem, List.mem_map_of_mem inside⟩

theorem mem_collectRequired_iff [CaseTable] (apart : AliasesApart schema)
    (covered : NamesakesCovered schema)
    {requests : List String} {globals : List GlobalElementModel}
    (resolved : resolveGlobalElements schema requests = .ok globals) {roots : List String}
    {name : String} : name ∈ collectRequiredTypeNames schema globals roots ↔
      Reaches schema ((schema.globalElements.filter fun elem =>
        elem.name ∈ globals.map GlobalElementModel.name).map GlobalElementModel.typeName ++ roots)
          name := by
  rw [mem_collectRequired, reachable_iff apart]
  exact (reaches_kept covered resolved roots name).symm

theorem namesakesCovered_of_selects [CaseTable] (selects : SelectsReachable schema) :
    NamesakesCovered schema := by
  intro key elem other found isElement sameName name reached
  have resolved : resolveGlobalElements schema [key] = .ok [elem] := by
    refine resolveGlobalElements_ok.mpr ⟨?_, ?_⟩
    · intro requested member
      rw [List.mem_singleton.mp member]
      exact ⟨elem, found⟩
    · simp [resolveLoop, found]
  have rooted : resolveTypeRoots schema [] = .ok [] :=
    resolveTypeRoots_ok.mpr ⟨List.forall_mem_nil _, rfl⟩
  have run := (@selectSubset_ok schema _ ⟨[key], []⟩ _ _).mpr ⟨_, _, resolved, rooted, rfl, rfl⟩
  rcases selects.selected ⟨[key], []⟩ _ _ _ _ resolved rooted run with ⟨_, _, _, exactly⟩
  rcases Option.isSome_iff_exists.mp reached.1 with ⟨m, declared⟩
  have isType := SchemaModel.find_mem declared
  have named := SchemaModel.find_name declared
  have kept : Reaches schema ((schema.globalElements.filter fun elem' =>
      elem'.name ∈ [elem].map GlobalElementModel.name).map GlobalElementModel.typeName ++ [])
        m.name := by
    rw [named, List.append_nil]
    rcases reached with ⟨declared, start, isStart, path⟩
    refine ⟨declared, start, ?_, path⟩
    rw [List.mem_singleton.mp isStart]
    apply List.mem_map_of_mem
    simp [isElement, sameName]
  have collected := (exactly m isType).mpr kept
  rw [List.mem_filter, decide_eq_true_eq, named] at collected
  exact (selects.collected _ _ _).mp collected.2

theorem anyOrder_of [CaseTable] (apart : AliasesApart schema) (covered : NamesakesCovered schema)
    {config config' : SubsetConfig}
    (messages : ∀ requested, requested ∈ config.messageTypes ↔ requested ∈ config'.messageTypes)
    (accessors : ∀ requested, requested ∈ config.accessorTypes ↔ requested ∈ config'.accessorTypes)
    {elems : List GlobalElementModel} {types : List TypeModel}
    (run : selectSubset schema config = .ok (elems, types)) :
    selectSubset schema config' = .ok (elems, types) := by
  rcases selectSubset_ok.mp run with ⟨globals, roots, resolved, rooted, rfl, rfl⟩
  have known := (resolveGlobalElements_ok.mp resolved).1
  have knownRoots := (resolveTypeRoots_ok.mp rooted).1
  have resolved' := resolveGlobalElements_ok.mpr
    ⟨fun requested member => known requested ((messages requested).mpr member), rfl⟩
  have rooted' := resolveTypeRoots_ok.mpr
    ⟨fun requested member => knownRoots requested ((accessors requested).mpr member), rfl⟩
  refine selectSubset_ok.mpr ⟨_, _, resolved', rooted', ?_, ?_⟩
  · apply List.filter_congr
    intro elem _
    rw [decide_eq_decide, mem_names_resolved resolved, mem_names_resolved resolved']
    simp only [messages]
  · -- the types follow from the elements that are kept, which are the same
    have sameElems : (schema.globalElements.filter fun elem =>
        elem.name ∈ globals.map GlobalElementModel.name) =
        schema.globalElements.filter fun elem => elem.name ∈
          ((resolveLoop (globalLookup schema.globalElements) GlobalElementModel.name [] []
            config'.messageTypes).1).map GlobalElementModel.name := by
      apply List.filter_congr
      intro elem _
      rw [decide_eq_decide, mem_names_resolved resolved, mem_names_resolved resolved']
      simp only [messages]
    have sameRoots : ∀ name, Reaches schema roots name ↔ Reaches schema
        (resolveLoop (typeLookup schema.types) id [] [] config'.accessorTypes).1 name := by
      intro name
      have asMany : ∀ root, root ∈ roots ↔ root ∈
          (resolveLoop (typeLookup schema.types) id [] [] config'.accessorTypes).1 := by
        intro root
        rw [mem_roots_resolved rooted, mem_roots_resolved rooted']
        simp only [accessors]
      simp only [Reaches, asMany]
    apply List.filter_congr
    intro m _
    rw [decide_eq_decide, mem_collectRequired_iff apart covered resolved,
      mem_collectRequired_iff apart covered resolved', sameElems, reaches_append, reaches_append,
      sameRoots]

/-- The subsets of a schema are what is reached exactly when no C++ type is called like another
declared type and elements of one name lead to the same types. -/
theorem selectsReachable_iff [CaseTable] (schema : SchemaModel) :
    SelectsReachable schema ↔ AliasesApart schema ∧ NamesakesCovered schema := by
  constructor
  · intro selects
    exact ⟨aliasesApart_of_collected selects.collected, namesakesCovered_of_selects selects⟩
  · rintro ⟨apart, covered⟩
    refine ⟨?_, ?_, ?_⟩
    · intro globals roots name
      rw [mem_collectRequired, reachable_iff apart]
    · intro config globals roots elems types resolved rooted run
      rcases selectSubset_ok.mp run with ⟨globals', roots', resolved', rooted', rfl, rfl⟩
      have sameGlobals : globals = globals' := Except.ok.inj (resolved.symm.trans resolved')
      have sameRoots : roots = roots' := Except.ok.inj (rooted.symm.trans rooted')
      subst sameGlobals sameRoots
      refine ⟨List.filter_sublist, List.filter_sublist, ?_, ?_⟩
      · intro elem member
        rw [List.mem_filter, decide_eq_true_eq, and_iff_right member]
      · intro m member
        rw [List.mem_filter, decide_eq_true_eq, and_iff_right member,
          mem_collectRequired_iff apart covered resolved]
    · intro config config' messages accessors
      have asOption : ∀ (run : Except Bytes (List GlobalElementModel × List TypeModel)) result,
          run.toOption = some result ↔ run = .ok result := by
        intro run result
        cases run with
        | error e => simp [Except.toOption]
        | ok value => simp [Except.toOption]
      apply Option.ext
      rintro ⟨elems, types⟩
      rw [asOption, asOption]
      constructor
      · exact anyOrder_of apart covered messages accessors
      · exact anyOrder_of apart covered (fun requested => (messages requested).symm)
          fun requested => (accessors requested).symm

end Subsets

section Samples

attribute [local instance] latinCase

def doubledSchema : SchemaModel where
  types := [⟨"double", .complex [] [] none⟩, ⟨"SpeedType", .simpleRestriction "decimal"⟩]
  globalElements := []
  nodupNames := by decide

theorem speed_reaches_itself (name : String) :
    Reaches doubledSchema ["SpeedType"] name → name = "SpeedType" := by
  rintro ⟨_, start, isStart, path⟩
  rw [List.mem_singleton.mp isStart] at path
  exact mentions_nothing (m := ⟨"SpeedType", .simpleRestriction "decimal"⟩) rfl rfl path

/-- The worklist follows a C++ type to a declared type of its name. -/
theorem speed_collects_double : "double" ∈ collectRequiredTypeNames doubledSchema [] ["SpeedType"] ∧
    ¬ Reaches doubledSchema ["SpeedType"] "double" ∧ ¬ SelectsReachable doubledSchema := by
  have collected : "double" ∈ collectRequiredTypeNames doubledSchema [] ["SpeedType"] := by
    refine mem_collectRequired.mpr ⟨by decide, "SpeedType", by simp, .single ?_⟩
    exact edge_iff.mpr ⟨⟨"SpeedType", .simpleRestriction "decimal"⟩, rfl, rfl,
      .inl ⟨by decide, by decide⟩⟩
  have unreached : ¬ Reaches doubledSchema ["SpeedType"] "double" := by
    intro reached
    exact absurd (speed_reaches_itself _ reached) (by decide)
  exact ⟨collected, unreached, fun selects => unreached ((selects.collected _ _ _).mp collected)⟩

end Samples

end Arcal.Compiler
