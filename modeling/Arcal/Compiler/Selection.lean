import Arcal.Compiler.Subset

/-! Which global elements the requests of a subset configuration select. Every element is known
by four keys; where elements share a key, the first in the schema has it. -/

namespace Arcal.Compiler

open Schema

section Loop

variable {β : Type} {lookup : Table String β} {nameOf : β → String} {selected : List β}
  {missing requests : List String}

theorem resolveLoop_missing : (resolveLoop lookup nameOf selected missing requests).2 =
    missing ++ requests.filter fun requested => (lookup.find requested).isNone := by
  induction requests generalizing selected missing with
  | nil => simp [resolveLoop]
  | cons requested rest ih =>
      cases found : lookup.find requested with
      | none =>
          simp only [resolveLoop, found]
          rw [ih, List.filter_cons_of_pos (by simp [found]), List.append_assoc,
            List.singleton_append]
      | some hit =>
          rw [List.filter_cons_of_neg (by simp [found])]
          simp only [resolveLoop, found]
          split
          · exact ih
          · exact ih

theorem hit_of_resolveLoop {x : β}
    (member : x ∈ (resolveLoop lookup nameOf selected missing requests).1) :
    x ∈ selected ∨ ∃ requested ∈ requests, lookup.find requested = some x := by
  induction requests generalizing selected missing with
  | nil => exact .inl member
  | cons requested rest ih =>
      have later : (x ∈ selected ∨ ∃ requested ∈ rest, lookup.find requested = some x) →
          x ∈ selected ∨ ∃ r ∈ requested :: rest, lookup.find r = some x := by
        intro given
        rcases given with before | ⟨other, inRest, found⟩
        · exact .inl before
        · exact .inr ⟨other, List.mem_cons_of_mem _ inRest, found⟩
      cases found : lookup.find requested with
      | none =>
          simp only [resolveLoop, found] at member
          exact later (ih member)
      | some hit =>
          simp only [resolveLoop, found] at member
          split at member
          · exact later (ih member)
          · rcases ih member with before | ⟨other, inRest, found'⟩
            · rcases List.mem_append.mp before with before | last
              · exact .inl before
              · rw [List.mem_singleton.mp last]
                exact .inr ⟨requested, List.mem_cons_self, found⟩
            · exact later (.inr ⟨other, inRest, found'⟩)

theorem mem_names_resolveLoop {name : String} :
    name ∈ (resolveLoop lookup nameOf selected missing requests).1.map nameOf ↔
      name ∈ selected.map nameOf ∨
        ∃ requested ∈ requests, ∃ hit, lookup.find requested = some hit ∧ nameOf hit = name := by
  induction requests generalizing selected missing with
  | nil => simp [resolveLoop]
  | cons requested rest ih =>
      cases found : lookup.find requested with
      | none =>
          simp only [resolveLoop, found]
          rw [ih]
          simp [found]
      | some hit =>
          have first : (∃ r ∈ requested :: rest, ∃ hit, lookup.find r = some hit ∧
              nameOf hit = name) ↔ nameOf hit = name ∨
                ∃ r ∈ rest, ∃ hit, lookup.find r = some hit ∧ nameOf hit = name := by
            simp [found]
          simp only [resolveLoop, found]
          split
          · next old =>
            rw [ih, first]
            constructor
            · intro given
              rcases given with before | later
              · exact .inl before
              · exact .inr (.inr later)
            · intro given
              rcases given with before | same | later
              · exact .inl before
              · exact .inl (same ▸ old)
              · exact .inr later
          · rw [ih, first, List.map_append, List.mem_append, List.map_singleton,
              List.mem_singleton, or_assoc, eq_comm (a := name)]

end Loop

/-- The names a global element can be requested by. -/
def globalKeys [CaseTable] (elem : GlobalElementModel) : List String :=
  [elem.name, xsdNameToCxx elem.name, elem.typeName, xsdNameToCxx elem.typeName]

theorem find_foldl_setdefault {β : Type} (keys : List String) (value : β)
    (lookup : Table String β) (key : String) :
    (keys.foldl (fun lookup key => lookup.setdefault key value) lookup).find key =
      (lookup.find key).or (if key ∈ keys then some value else none) := by
  induction keys generalizing lookup with
  | nil => simp
  | cons first rest ih =>
      rw [List.foldl_cons, ih, Table.find_setdefault]
      by_cases here : key = first
      · subst here
        cases lookup.find key <;> simp
      · simp [here]

/-- A key leads to the first element in the schema that has it. -/
theorem globalLookup_find [CaseTable] (elements : List GlobalElementModel) (key : String) :
    (globalLookup elements).find key = elements.find? fun elem => key ∈ globalKeys elem := by
  have run : ∀ lookup : Table String GlobalElementModel,
      (elements.foldl (fun lookup elem => (globalKeys elem).foldl
        (fun lookup key => lookup.setdefault key elem) lookup) lookup).find key =
      (lookup.find key).or (elements.find? fun elem => key ∈ globalKeys elem) := by
    intro lookup
    induction elements generalizing lookup with
    | nil => simp
    | cons elem rest ih =>
        rw [List.foldl_cons, ih, find_foldl_setdefault, List.find?_cons]
        by_cases here : key ∈ globalKeys elem
        · cases lookup.find key <;> simp [here]
        · simp [here]
  exact (run Table.empty).trans Option.none_or

section Resolve

variable {schema : SchemaModel} {requests : List String} {globals : List GlobalElementModel}

theorem resolveGlobalElements_ok [CaseTable] :
    resolveGlobalElements schema requests = .ok globals ↔
      (∀ requested ∈ requests,
        ∃ elem, (globalLookup schema.globalElements).find requested = some elem) ∧
      globals = (resolveLoop (globalLookup schema.globalElements) GlobalElementModel.name [] []
        requests).1 := by
  have none' : (resolveLoop (globalLookup schema.globalElements) GlobalElementModel.name [] []
      requests).2 = [] ↔ ∀ requested ∈ requests,
        ∃ elem, (globalLookup schema.globalElements).find requested = some elem := by
    rw [resolveLoop_missing, List.nil_append, List.filter_eq_nil_iff]
    simp only [Option.isNone_iff_eq_none, Option.ne_none_iff_exists']
  rw [← none']
  simp only [resolveGlobalElements]
  split
  · next some' => simp [some']
  · next all =>
    rw [not_not] at all
    simp [all, eq_comm]

theorem resolveTypeRoots_ok [CaseTable] {roots : List String} :
    resolveTypeRoots schema requests = .ok roots ↔
      (∀ requested ∈ requests, ∃ name, (typeLookup schema.types).find requested = some name) ∧
      roots = (resolveLoop (typeLookup schema.types) id [] [] requests).1 := by
  have none' : (resolveLoop (typeLookup schema.types) id [] [] requests).2 = [] ↔
      ∀ requested ∈ requests, ∃ name, (typeLookup schema.types).find requested = some name := by
    rw [resolveLoop_missing, List.nil_append, List.filter_eq_nil_iff]
    simp only [Option.isNone_iff_eq_none, Option.ne_none_iff_exists']
  rw [← none']
  simp only [resolveTypeRoots]
  split
  · next some' => simp [some']
  · next all =>
    rw [not_not] at all
    simp [all, eq_comm]

theorem mem_names_resolved [CaseTable] {name : String}
    (resolved : resolveGlobalElements schema requests = .ok globals) :
    name ∈ globals.map GlobalElementModel.name ↔ ∃ requested ∈ requests, ∃ hit,
      (globalLookup schema.globalElements).find requested = some hit ∧ hit.name = name := by
  rw [(resolveGlobalElements_ok.mp resolved).2, mem_names_resolveLoop]
  simp

theorem hit_of_resolved [CaseTable] {elem : GlobalElementModel}
    (resolved : resolveGlobalElements schema requests = .ok globals) (member : elem ∈ globals) :
    ∃ requested ∈ requests, (globalLookup schema.globalElements).find requested = some elem := by
  rw [(resolveGlobalElements_ok.mp resolved).2] at member
  rcases hit_of_resolveLoop member with none' | hit
  · cases none'
  · exact hit

theorem mem_roots_resolved [CaseTable] {roots : List String} {name : String}
    (resolved : resolveTypeRoots schema requests = .ok roots) :
    name ∈ roots ↔
      ∃ requested ∈ requests, (typeLookup schema.types).find requested = some name := by
  have names := @mem_names_resolveLoop _ (typeLookup schema.types) id [] [] requests name
  rw [List.map_id, List.map_nil] at names
  rw [(resolveTypeRoots_ok.mp resolved).2, names]
  simp

theorem selectSubset_ok [CaseTable] {config : SubsetConfig} {elems : List GlobalElementModel}
    {types : List TypeModel} : selectSubset schema config = .ok (elems, types) ↔
      ∃ globals roots, resolveGlobalElements schema config.messageTypes = .ok globals ∧
        resolveTypeRoots schema config.accessorTypes = .ok roots ∧
        elems = (schema.globalElements.filter fun elem =>
          elem.name ∈ globals.map GlobalElementModel.name) ∧
        types = schema.types.filter fun m =>
          m.name ∈ collectRequiredTypeNames schema globals roots := by
  unfold selectSubset
  cases resolveGlobalElements schema config.messageTypes with
  | error message => simp [bind, Except.bind]
  | ok globals =>
      cases resolveTypeRoots schema config.accessorTypes with
      | error message => simp [bind, Except.bind]
      | ok roots => simp [bind, Except.bind, pure, Except.pure, eq_comm]

end Resolve

/-- What a request names: the element called so, or those whose type is called so when no
element is. -/
def Names (elements : List GlobalElementModel) (requested : String)
    (elem : GlobalElementModel) : Prop :=
  elem ∈ elements ∧ (elem.name = requested ∨
    elem.typeName = requested ∧ ∀ other ∈ elements, other.name ≠ requested)

/-- The element has the key, and none in front of it has. -/
def FirstWith [CaseTable] (elements : List GlobalElementModel) (key : String)
    (elem : GlobalElementModel) : Prop :=
  ∃ front back, elements = front ++ elem :: back ∧ key ∈ globalKeys elem ∧
    ∀ earlier ∈ front, key ∉ globalKeys earlier

/-- An element that is asked for: its name is requested, or that of its type where no element is
called so. -/
def Asked (elements : List GlobalElementModel) (requests : List String)
    (elem : GlobalElementModel) : Prop :=
  elem.name ∈ requests ∨
    elem.typeName ∈ requests ∧ ∀ other ∈ elements, other.name ≠ elem.typeName

/-- What makes a request safe: it is a key, no element that nobody asked for has the key in front
of the others, and an element that it names and that is not the first with it is the first with
another request. -/
structure Unshadowed [CaseTable] (elements : List GlobalElementModel) (requests : List String)
    (requested : String) : Prop where
  known : ∃ elem ∈ elements, requested ∈ globalKeys elem
  asked : ∀ elem, FirstWith elements requested elem → Asked elements requests elem
  named : ∀ elem, Names elements requested elem → FirstWith elements requested elem ∨
    ∃ other ∈ requests, other ≠ requested ∧ FirstWith elements other elem

/-- The elements that are selected are those the requests name, with any accessor types that
can be resolved. -/
def SelectsNamed [CaseTable] (schema : SchemaModel) (requests : List String) : Prop :=
  ∀ accessorTypes roots, resolveTypeRoots schema accessorTypes = .ok roots →
    ∃ elems types, selectSubset schema ⟨requests, accessorTypes⟩ = .ok (elems, types) ∧
      ∀ elem, elem ∈ elems ↔
        ∃ requested ∈ requests, Names schema.globalElements requested elem

theorem firstWith_iff [CaseTable] {elements : List GlobalElementModel} {key : String}
    {elem : GlobalElementModel} :
    FirstWith elements key elem ↔ (globalLookup elements).find key = some elem := by
  rw [globalLookup_find, List.find?_eq_some_iff_append]
  constructor
  · intro given
    rcases given with ⟨front, back, split, has, others⟩
    exact ⟨by simpa using has, front, back, split, fun earlier member => by
      simpa using others earlier member⟩
  · intro given
    rcases given with ⟨has, front, back, split, others⟩
    exact ⟨front, back, split, by simpa using has, fun earlier member => by
      simpa using others earlier member⟩

theorem FirstWith.mem [CaseTable] {elements : List GlobalElementModel} {key : String}
    {elem : GlobalElementModel} (first : FirstWith elements key elem) : elem ∈ elements := by
  rcases first with ⟨front, back, rfl, _⟩
  simp

theorem exists_firstWith_iff [CaseTable] {elements : List GlobalElementModel} {key : String} :
    (∃ elem, FirstWith elements key elem) ↔ ∃ elem ∈ elements, key ∈ globalKeys elem := by
  simp only [firstWith_iff, globalLookup_find, ← Option.isSome_iff_exists, List.find?_isSome,
    decide_eq_true_eq]

theorem asked_iff {elements : List GlobalElementModel} {requests : List String}
    {elem : GlobalElementModel} (member : elem ∈ elements) :
    Asked elements requests elem ↔ ∃ requested ∈ requests, Names elements requested elem := by
  constructor
  · intro given
    rcases given with byName | ⟨byType, free⟩
    · exact ⟨_, byName, member, .inl rfl⟩
    · exact ⟨_, byType, member, .inr ⟨rfl, free⟩⟩
  · intro given
    rcases given with ⟨requested, inside, _, called | ⟨called, free⟩⟩
    · exact .inl (called ▸ inside)
    · exact .inr ⟨called ▸ inside, fun other there => called ▸ free other there⟩

theorem mem_selected [CaseTable] {schema : SchemaModel}
    (distinct : (schema.globalElements.map GlobalElementModel.name).Nodup)
    {requests : List String} {globals : List GlobalElementModel}
    (resolved : resolveGlobalElements schema requests = .ok globals) (elem : GlobalElementModel) :
    (elem ∈ schema.globalElements.filter fun elem =>
      elem.name ∈ globals.map GlobalElementModel.name) ↔
      ∃ requested ∈ requests, FirstWith schema.globalElements requested elem := by
  rw [List.mem_filter, decide_eq_true_eq, mem_names_resolved resolved]
  constructor
  · intro given
    rcases given with ⟨member, requested, inside, hit, found, sameName⟩
    have first := firstWith_iff.mpr found
    have same : hit = elem := List.inj_on_of_nodup_map distinct first.mem member sameName
    exact ⟨requested, inside, same ▸ first⟩
  · intro given
    rcases given with ⟨requested, inside, first⟩
    exact ⟨first.mem, requested, inside, elem, firstWith_iff.mp first, rfl⟩

theorem selectsNamed_iff_first [CaseTable] {schema : SchemaModel}
    (distinct : (schema.globalElements.map GlobalElementModel.name).Nodup)
    (requests : List String) :
    SelectsNamed schema requests ↔
      (∀ requested ∈ requests, ∃ elem, FirstWith schema.globalElements requested elem) ∧
      ∀ elem, (∃ requested ∈ requests, FirstWith schema.globalElements requested elem) ↔
        ∃ requested ∈ requests, Names schema.globalElements requested elem := by
  constructor
  · intro selects
    have noRoots : resolveTypeRoots schema [] = .ok [] := by
      apply resolveTypeRoots_ok.mpr
      exact ⟨nofun, rfl⟩
    rcases selects [] [] noRoots with ⟨elems, types, run, exactly⟩
    rcases selectSubset_ok.mp run with ⟨globals, roots, resolved, _, rfl, _⟩
    have known := (resolveGlobalElements_ok.mp resolved).1
    refine ⟨?_, ?_⟩
    · intro requested member
      rcases known requested member with ⟨elem, found⟩
      exact ⟨elem, firstWith_iff.mpr found⟩
    · intro elem
      rw [← mem_selected distinct resolved]
      exact exactly elem
  · intro given accessorTypes roots rooted
    have known : ∀ requested ∈ requests,
        ∃ elem, (globalLookup schema.globalElements).find requested = some elem := by
      intro requested member
      rcases given.1 requested member with ⟨elem, first⟩
      exact ⟨elem, firstWith_iff.mp first⟩
    have resolved := resolveGlobalElements_ok.mpr ⟨known, rfl⟩
    refine ⟨_, _, selectSubset_ok.mpr ⟨_, roots, resolved, rooted, rfl, rfl⟩, ?_⟩
    intro elem
    rw [mem_selected distinct resolved]
    exact given.2 elem

/-- The requests select what they name exactly when each of them is safe. -/
theorem selectsNamed_iff [CaseTable] {schema : SchemaModel}
    (distinct : (schema.globalElements.map GlobalElementModel.name).Nodup)
    (requests : List String) :
    SelectsNamed schema requests ↔
      ∀ requested ∈ requests, Unshadowed schema.globalElements requests requested := by
  rw [selectsNamed_iff_first distinct]
  constructor
  · intro given requested inside
    refine ⟨exists_firstWith_iff.mp (given.1 requested inside), ?_, ?_⟩
    · intro elem first
      exact (asked_iff first.mem).mpr ((given.2 elem).mp ⟨requested, inside, first⟩)
    · intro elem named
      rcases (given.2 elem).mpr ⟨requested, inside, named⟩ with ⟨other, among, first⟩
      by_cases same : other = requested
      · exact .inl (same ▸ first)
      · exact .inr ⟨other, among, same, first⟩
  · intro safe
    refine ⟨fun requested inside => exists_firstWith_iff.mpr (safe requested inside).known, ?_⟩
    intro elem
    constructor
    · intro given
      rcases given with ⟨requested, inside, first⟩
      exact (asked_iff first.mem).mp ((safe requested inside).asked elem first)
    · intro given
      rcases given with ⟨requested, inside, named⟩
      rcases (safe requested inside).named elem named with first | ⟨other, among, _, first⟩
      · exact ⟨requested, inside, first⟩
      · exact ⟨other, among, first⟩

/-- An element is selected by its name alone if and only if no element in front of it has that
name among its keys. -/
theorem selectsNamed_name [CaseTable] {schema : SchemaModel}
    (distinct : (schema.globalElements.map GlobalElementModel.name).Nodup)
    {front back : List GlobalElementModel} {elem : GlobalElementModel}
    (split : schema.globalElements = front ++ elem :: back) :
    SelectsNamed schema [elem.name] ↔ ∀ earlier ∈ front, elem.name ∉ globalKeys earlier := by
  have member : elem ∈ schema.globalElements := by simp [split]
  have named : ∀ other, Names schema.globalElements elem.name other ↔ other = elem := by
    intro other
    constructor
    · intro given
      rcases given with ⟨there, called | ⟨_, free⟩⟩
      · exact List.inj_on_of_nodup_map distinct there member called
      · exact absurd rfl (free elem member)
    · rintro rfl
      exact ⟨member, .inl rfl⟩
  have unique : ∀ {one two}, FirstWith schema.globalElements elem.name one →
      FirstWith schema.globalElements elem.name two → one = two := by
    intro one two first second
    exact Option.some.inj ((firstWith_iff.mp first).symm.trans (firstWith_iff.mp second))
  rw [selectsNamed_iff_first distinct]
  simp only [List.mem_singleton, exists_eq_left, forall_eq, named]
  constructor
  · intro given earlier inFront has
    have found := firstWith_iff.mp ((given.2 elem).mpr rfl)
    rw [globalLookup_find, split, List.find?_append] at found
    cases inside : front.find? fun other => elem.name ∈ globalKeys other with
    | none => exact List.find?_eq_none.mp inside earlier inFront (by simpa using has)
    | some hit =>
        rw [inside, Option.some_or, Option.some.injEq] at found
        have twice : elem ∈ front := found ▸ List.mem_of_find?_eq_some inside
        rw [split, List.map_append, List.map_cons, List.nodup_append] at distinct
        exact distinct.2.2 _ (List.mem_map_of_mem twice) _ List.mem_cons_self rfl
  · intro free
    have first : FirstWith schema.globalElements elem.name elem :=
      ⟨front, back, split, List.mem_cons_self, free⟩
    refine ⟨⟨elem, first⟩, ?_⟩
    intro other
    constructor
    · intro again
      exact unique again first
    · rintro rfl
      exact first

section Samples

attribute [local instance] latinCase

def sharedKeys : SchemaModel where
  types := []
  globalElements := [⟨"Activity", "Command"⟩, ⟨"Command", "CommandType"⟩]
  nodupNames := by decide

def plainKeys : SchemaModel where
  types := []
  globalElements := [⟨"Activity", "ActivityMT"⟩, ⟨"Command", "CommandMT"⟩]
  nodupNames := by decide

/-- A request for an element by its name selects another element. -/
theorem request_selects_other :
    ⟨"Command", "CommandType"⟩ ∈ sharedKeys.globalElements ∧
      (sharedKeys.globalElements.map GlobalElementModel.name).Nodup ∧
      selectSubset sharedKeys ⟨["Command"], []⟩ = .ok ([⟨"Activity", "Command"⟩], []) ∧
      ¬ SelectsNamed sharedKeys ["Command"] := by
  have run : selectSubset sharedKeys ⟨["Command"], []⟩ = .ok ([⟨"Activity", "Command"⟩], []) :=
    selectSubset_ok.mpr ⟨[⟨"Activity", "Command"⟩], [], by rfl, rfl, by rfl, rfl⟩
  refine ⟨by decide, by decide, run, ?_⟩
  intro selects
  rcases selects [] [] rfl with ⟨elems, types, run', exactly⟩
  rw [run] at run'
  injection run' with same
  injection same with sameElems _
  have wanted := (exactly ⟨"Command", "CommandType"⟩).mpr
    ⟨"Command", List.mem_cons_self, by decide, .inl rfl⟩
  rw [← sameElems] at wanted
  exact absurd wanted (by decide)

theorem selectsNamed_command : SelectsNamed plainKeys ["CommandMT"] := by
  have first : FirstWith plainKeys.globalElements "CommandMT" ⟨"Command", "CommandMT"⟩ :=
    firstWith_iff.mpr (by rfl)
  have names : ∀ elem, Names plainKeys.globalElements "CommandMT" elem ↔
      elem = ⟨"Command", "CommandMT"⟩ := by
    intro elem
    constructor
    · intro given
      rcases given with ⟨member, called⟩
      rcases List.mem_pair.mp member with rfl | rfl
      · exact absurd called (by decide)
      · rfl
    · rintro rfl
      exact ⟨by decide, .inr ⟨rfl, by decide⟩⟩
  have only : ∀ elem, FirstWith plainKeys.globalElements "CommandMT" elem →
      elem = ⟨"Command", "CommandMT"⟩ := by
    intro elem given
    exact Option.some.inj ((firstWith_iff.mp given).symm.trans (firstWith_iff.mp first))
  have distinct : (plainKeys.globalElements.map GlobalElementModel.name).Nodup := by decide
  apply (selectsNamed_iff distinct ["CommandMT"]).mpr
  intro requested member
  rw [List.mem_singleton.mp member]
  refine ⟨⟨_, first.mem, by decide⟩, ?_, ?_⟩
  · intro elem given
    rw [only elem given]
    exact .inr (by decide)
  · intro elem named
    rw [(names elem).mp named]
    exact .inl first

end Samples

end Arcal.Compiler
