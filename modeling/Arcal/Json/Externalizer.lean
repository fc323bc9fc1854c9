import Arcal.Cdr.Registry
import Arcal.Json.Names

/-! `JsonRegistry` and `JsonExternalizer`: a text written from one accessor read into
another. `read` resets the accessor before it fills it. -/

namespace Arcal.Json

open Schema Focus
open Cdr (Accessor Part)
open JsonText (Value)

/-- `table_`: a handler is known by the XSD name of the type it was generated for. -/
structure JsonRegistry where
  table : List (String × String)

namespace JsonRegistry

def registerHandler (reg : JsonRegistry) (typeName handler : String) : JsonRegistry :=
  ⟨(typeName, handler) :: reg.table⟩

def lookup (reg : JsonRegistry) (typeName : String) : Except Exc String :=
  match reg.table.lookup typeName with
  | some handler => .ok handler
  | none => .error (.runtimeError
      (utf8 "JsonRegistry: no handler for type '" ++ utf8 typeName ++ utf8 "'"))

end JsonRegistry

def typeEntries (types : List TypeModel) : List String :=
  (types.filter fun m => !m.isSimpleRestriction).map TypeModel.name

def registerAllJsonHandlers (entries : List String) : JsonRegistry :=
  entries.foldl (fun reg xsdName => reg.registerHandler xsdName xsdName) ⟨[]⟩

theorem lookup_foldl (entries : List String) (reg : JsonRegistry) (typeName : String) :
    (entries.foldl (fun reg xsdName => reg.registerHandler xsdName xsdName) reg).table.lookup
      typeName = if typeName ∈ entries then some typeName else reg.table.lookup typeName := by
  induction entries generalizing reg with
  | nil => simp
  | cons entry rest ih =>
      rw [List.foldl_cons, ih]
      by_cases later : typeName ∈ rest
      · simp [later]
      · by_cases here : typeName = entry
        · subst here
          simp [later, JsonRegistry.registerHandler]
        · have other : (typeName == entry) = false := by simpa using here
          simp [later, here, JsonRegistry.registerHandler, List.lookup_cons, other]

theorem lookup_registerAll (entries : List String) (typeName : String) :
    (registerAllJsonHandlers entries).lookup typeName =
      if typeName ∈ entries then .ok typeName
      else .error (.runtimeError
        (utf8 "JsonRegistry: no handler for type '" ++ utf8 typeName ++ utf8 "'")) := by
  rw [JsonRegistry.lookup, registerAllJsonHandlers, lookup_foldl]
  by_cases known : typeName ∈ entries
  · simp [known]
  · simp [known]

theorem mem_typeEntries {schema : SchemaModel} {typeName : String} {m : TypeModel}
    (found : schema.find typeName = some m) (classy : m.isSimpleRestriction = false) :
    typeName ∈ typeEntries schema.types := by
  rw [← SchemaModel.find_name found]
  apply List.mem_map_of_mem
  rw [List.mem_filter]
  exact ⟨SchemaModel.find_mem found, by rw [classy]; rfl⟩

variable {schema : SchemaModel} (fp : Floating)

def serialize (typeName : String) (a : Accessor schema) (out : Bytes) : Except Exc Bytes :=
  match Cdr.Elem.castTo typeName a.elem with
  | some part => .ok (Elem.serialize fp part.elem (part.get a.obj) out)
  | none => .error .badCast

/-- `T_deserialize` on an accessor of any class; the accessor comes back as it is left. -/
def deserialize [CaseTable] (typeName : String) (value : Value) (a : Accessor schema) :
    Except Exc Unit × Accessor schema :=
  match Cdr.Elem.castTo typeName a.elem with
  | some part =>
      match within part.get part.put (Elem.deserialize fp [] part.elem value) a.obj with
      | .ok _ obj => (.ok (), { a with obj })
      | .error e obj => (.error e, { a with obj })
  | none => (.error .badCast, a)

namespace JsonExternalizer

/-- The `catch` clauses of `read`; the one for `std::runtime_error` is also `write`'s. -/
def rethrow (context : String) (e : Exc) : Exc :=
  match e with
  | .uciException what => .uciException what
  | .jsonException what => .uciException (utf8 context ++ what)
  | .runtimeError what => .uciException (utf8 context ++ what)
  | other => other

def write (reg : JsonRegistry) (type : Accessor schema) (str : Bytes) : Except Exc Bytes :=
  let written := do
    let handler ← reg.lookup type.typeName
    serialize fp handler type str
  match written with
  | .ok more => .ok more
  | .error e => .error (rethrow "JsonExternalizer::write: " e)

/-- `parse` is `nlohmann::json::parse`. The accessor is reset before the lookup and comes
back as it is left, also after a throw. -/
def read [CaseTable] (parse : Bytes → Except Exc Value) (reg : JsonRegistry) (str : Bytes)
    (type : Accessor schema) : Except Exc Unit × Accessor schema :=
  match parse str with
  | .error e => (.error (rethrow "JsonExternalizer::read: " e), type)
  | .ok doc =>
      let blank : Accessor schema := { type with obj := type.elem.reset type.obj }
      match reg.lookup type.typeName with
      | .error e => (.error (rethrow "JsonExternalizer::read: " e), blank)
      | .ok handler =>
          match deserialize fp handler doc blank with
          | (.ok _, left) => (.ok (), left)
          | (.error e, left) => (.error (rethrow "JsonExternalizer::read: " e), left)

end JsonExternalizer

/-- A parser that takes every JSON text in valid UTF-8 for the value it stands for. -/
def Conforming (parse : Bytes → Except Exc Value) : Prop :=
  ∀ text value, JsonText.parse (representable fp) text = some value → parse text = .ok value

theorem serialize_self (a : Accessor schema) (out : Bytes) :
    serialize fp a.typeName a out = .ok (Elem.serialize fp a.elem a.obj out) := by
  simp only [serialize, Cdr.castTo_self a.laidOut]
  rfl

theorem deserialize_self [CaseTable] (a : Accessor schema) (value : Value) :
    deserialize fp a.typeName value a =
      match Elem.deserialize fp [] a.elem value a.obj with
      | .ok _ obj => (.ok (), { a with obj })
      | .error e obj => (.error e, { a with obj }) := by
  simp only [deserialize, Cdr.castTo_self a.laidOut]
  change (match within id (fun _ v => v) (Elem.deserialize fp [] a.elem value) a.obj with
    | .ok _ obj => ((.ok (), { a with obj }) : Except Exc Unit × Accessor schema)
    | .error e obj => (.error e, { a with obj })) = _
  unfold within
  simp only [id_eq]
  cases Elem.deserialize fp [] a.elem value a.obj with
  | ok u obj => rfl
  | error e obj => rfl

namespace JsonExternalizer

variable {m : TypeModel}

theorem write_run (type : Accessor schema) (found : schema.find type.typeName = some m)
    (classy : m.isSimpleRestriction = false) (str : Bytes) :
    write fp (registerAllJsonHandlers (typeEntries schema.types)) type str =
      .ok (Elem.serialize fp type.elem type.obj str) := by
  simp only [write, lookup_registerAll, if_pos (mem_typeEntries found classy), bind,
    Except.bind, serialize_self]

theorem read_eq_ok [CaseTable] {parse : Bytes → Except Exc Value} (type : Accessor schema)
    (found : schema.find type.typeName = some m) (classy : m.isSimpleRestriction = false)
    {str : Bytes} {got : Accessor schema} :
    read fp parse (registerAllJsonHandlers (typeEntries schema.types)) str type = (.ok (), got) ↔
      ∃ doc filled, parse str = .ok doc ∧
        Elem.deserialize fp [] type.elem doc type.elem.fresh = .ok () filled ∧
        got = { type with obj := filled } := by
  have known := lookup_registerAll (typeEntries schema.types) type.typeName
  rw [if_pos (mem_typeEntries found classy)] at known
  have blank := deserialize_self fp { type with obj := type.elem.reset type.obj }
  simp only [Elem.reset] at blank
  cases parsed : parse str with
  | error e => simp [read, parsed]
  | ok doc =>
      simp only [read, parsed, known, Elem.reset, blank]
      cases run : Elem.deserialize fp [] type.elem doc type.elem.fresh with
      | error e left => simp [run]
      | ok u filled => simp [run, eq_comm]

end JsonExternalizer

/-- The text of an object parses to its tree. -/
theorem parse_serialize {parse : Bytes → Except Exc Value} (conforming : Conforming fp parse)
    {e : Elem} (keyed : Elem.Keyed e) (floatless : Elem.Floatless e) {v : e.Impl}
    (expressible : Elem.Expressible e v) :
    parse (Elem.serialize fp e v []) = .ok (Elem.tree fp e v) := by
  have parsable := Elem.tree_parsable fp e floatless v expressible
  have valid := JsonText.valid_render _ parsable.sound parsable.encoded
  rw [Elem.serialize_eq fp e keyed v, List.nil_append]
  exact conforming _ _ (JsonText.parse_render parsable.sound valid)

/-- What is read back equals what was written exactly when every enum item that shows is
the first of its name, whatever the destination held. -/
theorem read_undoes_write_iff [CaseTable] {schema : SchemaModel} (wf : WellFormed schema)
    (names : DistinctNames schema) (fp : Floating) {parse : Bytes → Except Exc Value}
    (conforming : Conforming fp parse) (typeName : String) {m : TypeModel}
    (found : schema.find typeName = some m) (classy : m.isSimpleRestriction = false) :
    ∃ (e : Elem) (laidOut : layout schema typeName = some e), Elem.Floatless e →
      ∀ v d : e.Impl, Elem.Expressible e v →
        ((∃ (str : Bytes) (got : e.Impl),
          JsonExternalizer.write fp (registerAllJsonHandlers (typeEntries schema.types))
            ⟨typeName, e, laidOut, v⟩ [] = .ok str ∧
          JsonExternalizer.read fp parse (registerAllJsonHandlers (typeEntries schema.types)) str
            ⟨typeName, e, laidOut, d⟩ = (.ok (), ⟨typeName, e, laidOut, got⟩) ∧
          e.Agrees got v) ↔
        Elem.FirstNamed e v) := by
  rcases exists_layout wf found classy with ⟨e, laidOut⟩
  refine ⟨e, laidOut, ?_⟩
  intro floatless v d expressible
  have keyed := keyed_layout names laidOut
  have written := JsonExternalizer.write_run fp ⟨typeName, e, laidOut, v⟩ found classy []
  have parsed := parse_serialize fp conforming keyed floatless expressible
  have filled := Elem.deserialize_tree fp e keyed floatless v expressible e.fresh []
  have back := (JsonExternalizer.read_eq_ok fp ⟨typeName, e, laidOut, d⟩ found classy).mpr
    ⟨_, _, parsed, filled, rfl⟩
  have same := Elem.reread_agrees_iff e v e.fresh expressible e.fresh_isFresh
  constructor
  · intro given
    rcases given with ⟨str, got, write, read, agrees⟩
    rw [written] at write
    injection write with strEq
    subst strEq
    rw [back] at read
    injection read with _ gotEq
    injection gotEq with _ _ gotEq
    rw [gotEq] at same
    exact same.mp agrees
  · intro named
    exact ⟨_, _, written, back, same.mpr named⟩

section Sample

attribute [local instance] latinCase

def sampleFloating : Floating :=
  ⟨fun _ => [], fun _ => [], fun _ => none, fun _ => 0, fun _ => 0⟩

def sampleParse (text : Bytes) : Except Exc Value :=
  match JsonText.parse (representable sampleFloating) text with
  | some value => .ok value
  | none => .error (.jsonException [])

theorem sampleParse_conforming : Conforming sampleFloating sampleParse := by
  intro text value parsed
  rw [sampleParse, parsed]

theorem sampleSchema_distinctNames : DistinctNames sampleSchema where
  plain := by decide +kernel
  own := by decide
  inherited := by
    have extends_iff : ∀ name other, Extends sampleSchema name other →
        name = "TrackMDT" ∧ other = "HeaderType" := by
      intro name other extended
      rcases extended with ⟨m, found, based⟩
      have member := SchemaModel.find_mem found
      rw [← SchemaModel.find_name found]
      simp only [sampleSchema, List.mem_cons, List.not_mem_nil, or_false] at member
      rcases member with rfl | rfl | rfl | rfl <;>
        simp [TypeModel.baseType, baseName] at based
      exact ⟨rfl, based.1.symm⟩
    intro m member base there path
    have start : m.name = "TrackMDT" := by
      rcases Relation.TransGen.head'_iff.mp path with ⟨_, step, _⟩
      exact (extends_iff _ _ step).1
    have stop : base.name = "HeaderType" := by
      rcases Relation.TransGen.tail'_iff.mp path with ⟨_, _, step⟩
      exact (extends_iff _ _ step).2
    have apart : ∀ m ∈ sampleSchema.types, ∀ base ∈ sampleSchema.types, m.name = "TrackMDT" →
        base.name = "HeaderType" → ∀ name ∈ ownNames m, name ∉ ownNames base := by
      decide
    exact apart m member base there start stop

theorem read_undoes_write_header :
    ∃ (str : Bytes) (got : headerLayout.Impl),
      JsonExternalizer.write sampleFloating (registerAllJsonHandlers (typeEntries sampleSchema.types))
        ⟨"HeaderType", headerLayout, layout_header, unlabelledHeader⟩ [] = .ok str ∧
      JsonExternalizer.read sampleFloating sampleParse
        (registerAllJsonHandlers (typeEntries sampleSchema.types)) str
        ⟨"HeaderType", headerLayout, layout_header, labelledHeader (utf8 "old")⟩ =
          (.ok (), ⟨"HeaderType", headerLayout, layout_header, got⟩) ∧
      headerLayout.Agrees got unlabelledHeader := by
  rcases read_undoes_write_iff sampleSchema_wellFormed sampleSchema_distinctNames sampleFloating
    sampleParse_conforming "HeaderType" rfl rfl with ⟨e, laidOut, iff⟩
  have same : headerLayout = e := Option.some.inj (layout_header.symm.trans laidOut)
  subst same
  have floatless : Elem.Floatless headerLayout := by
    simp [headerLayout, headerMembers, Elem.Floatless, Members.Floatless, Exact]
  apply (iff floatless _ _ ?_).mpr
  · simp [headerLayout, headerMembers, unlabelledHeader, Elem.FirstNamed, Members.FirstNamed]
  · simp [headerLayout, headerMembers, unlabelledHeader, Elem.Expressible,
      Members.Expressible, Encodable]

/-- A message whose enumeration declares an item called as the item in front of them all. -/
def stateSchema : SchemaModel where
  types := [⟨"StateEnum", .enumeration ["active", "enumNotSet"]⟩,
    ⟨"StateMDT", .complex [⟨"state", "StateEnum", 1, 1⟩] [] none⟩]
  globalElements := [⟨"State", "StateMDT"⟩]
  nodupNames := by decide

def stateLayout : Elem :=
  .cls "StateMDT" (.required "state" (.enum "StateEnum" ["active", "enumNotSet"]) .nil)

theorem layout_state : layout stateSchema "StateMDT" = some stateLayout := by rfl

def stateNotSet : stateLayout.Impl := ((2 : UInt32), ())

theorem stateSchema_wellFormed : WellFormed stateSchema where
  elements := by decide
  bases := by
    intro m member name based
    simp only [stateSchema, List.mem_cons, List.not_mem_nil, or_false] at member
    rcases member with rfl | rfl <;> cases based
  acyclic := by
    refine acyclic_of_rank (fun name => if name = "StateMDT" then 1 else 0) ?_
    intro m member name mentioned
    have below : ∀ m ∈ stateSchema.types,
        ∀ name ∈ (elementTypes m).filter (· ∉ primitiveTypes) ++ (baseName m.baseType).toList,
          (if name = "StateMDT" then 1 else 0) < (if m.name = "StateMDT" then 1 else 0) := by
      decide
    refine below m member name ?_
    rcases mentioned with ⟨field, declared⟩ | base
    · exact List.mem_append_left _ (List.mem_filter.mpr ⟨field, by simpa using declared⟩)
    · exact List.mem_append_right _ (by rw [base]; simp)
  oneChoice := by decide

theorem stateSchema_distinctNames : DistinctNames stateSchema where
  plain := by decide +kernel
  own := by decide
  inherited := by
    intro m member base there path
    rcases Relation.TransGen.head'_iff.mp path with ⟨next, step, _⟩
    rcases step with ⟨m', found, based⟩
    have member' := SchemaModel.find_mem found
    simp only [stateSchema, List.mem_cons, List.not_mem_nil, or_false] at member'
    rcases member' with rfl | rfl <;> cases based

/-- The declared item `enumNotSet` is read back as no item at all. -/
theorem read_loses_declared_item :
    WellFormed stateSchema ∧ DistinctNames stateSchema ∧ Elem.Floatless stateLayout ∧
      Elem.Expressible stateLayout stateNotSet ∧
    ∃ (str : Bytes) (got : stateLayout.Impl),
      JsonExternalizer.write sampleFloating (registerAllJsonHandlers (typeEntries stateSchema.types))
        ⟨"StateMDT", stateLayout, layout_state, stateNotSet⟩ [] = .ok str ∧
      JsonExternalizer.read sampleFloating sampleParse
        (registerAllJsonHandlers (typeEntries stateSchema.types)) str
        ⟨"StateMDT", stateLayout, layout_state, stateLayout.fresh⟩ =
          (.ok (), ⟨"StateMDT", stateLayout, layout_state, got⟩) ∧
      got.1 = (0 : UInt32) ∧ ¬ stateLayout.Agrees got stateNotSet := by
  have floatless : Elem.Floatless stateLayout := by
    simp [stateLayout, Elem.Floatless, Members.Floatless]
  have expressible : Elem.Expressible stateLayout stateNotSet := by
    simp [stateLayout, stateNotSet, Elem.Expressible, Members.Expressible, Declared]
  have keyed := keyed_layout stateSchema_distinctNames layout_state
  have parsed := parse_serialize sampleFloating sampleParse_conforming keyed floatless expressible
  have filled := Elem.deserialize_tree sampleFloating stateLayout keyed floatless stateNotSet
    expressible stateLayout.fresh []
  refine ⟨stateSchema_wellFormed, stateSchema_distinctNames, floatless, expressible, _, _,
    JsonExternalizer.write_run sampleFloating ⟨"StateMDT", stateLayout, layout_state, stateNotSet⟩
      rfl rfl [],
    (JsonExternalizer.read_eq_ok sampleFloating
      ⟨"StateMDT", stateLayout, layout_state, stateLayout.fresh⟩ rfl rfl).mpr
        ⟨_, _, parsed, filled, rfl⟩,
    by decide, ?_⟩
  intro same
  have named := (Elem.reread_agrees_iff stateLayout stateNotSet stateLayout.fresh expressible
    stateLayout.fresh_isFresh).mp same
  simp only [stateLayout, stateNotSet, Elem.FirstNamed, Members.FirstNamed, FirstOfName] at named
  exact named.1 0 (by decide) (by decide)

end Sample

end Arcal.Json
