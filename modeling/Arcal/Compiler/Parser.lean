import Arcal.Schema.Document

/-! `SchemaParser`: from XSD documents to the model the generator works on. -/

namespace Arcal.Compiler

open Schema

/-- `elem.get("name") or elem.get("ref", "").split(":")[-1]`: an empty name counts as none. -/
def elementName (elem : ElementDecl) : String :=
  (elem.name.filter (· ≠ "")).getD (localName (elem.ref.getD ""))

/-- Anonymous inline types and untyped elements are skipped. -/
def elementToField (elem : ElementDecl) : Option FieldModel :=
  if elementName elem = "" then none
  else if elem.type = none ∧ elem.ref = none then none
  else some {
    name := elementName elem
    typeName := localName (elem.type.getD (elementName elem))
    minOccurs := elem.minOccurs.getD 1
    maxOccursVal :=
      match elem.maxOccurs with
      | none => 1
      | some .unbounded => -1
      | some (.count n) => n }

def parseSequence (seq : List Particle) : List FieldModel :=
  (elementsOf seq).filterMap elementToField

def parseChoice (choice : List Particle) : ChoiceModel :=
  ⟨(elementsOf choice).filterMap elementToField⟩

/-- Fields and choices are collected under the extensions first; the base is that of the last
one. -/
def parseComplexType (ct : ComplexType) : Option TypeModel :=
  match ct.name.filter (· ≠ "") with
  | none => none
  | some name =>
      let extensions := ct.complexContent ++ ct.simpleContent
      let baseType := extensions.foldl (fun _ ext => some (localName (ext.base.getD ""))) none
      let fields :=
        (extensions.flatMap fun ext => (sequencesOf ext.children).flatMap parseSequence) ++
          (sequencesOf ct.children).flatMap parseSequence
      let choices :=
        (extensions.flatMap fun ext => (choicesIn ext.children).map parseChoice) ++
          (choicesIn ct.children).map parseChoice
      some ⟨name, .complex fields choices baseType⟩

/-- An enumeration, or an alias of what the restriction is based on. -/
def parseSimpleType (st : SimpleType) : Option TypeModel :=
  match st.name.filter (· ≠ ""), st.restriction with
  | some name, some restriction =>
      if restriction.enumerations ≠ [] then
        some ⟨name, .enumeration restriction.enumerations⟩
      else some ⟨name, .simpleRestriction (localName (restriction.base.getD "xs:string"))⟩
  | _, _ => none

/-- `self.types[model.name] = model`: a type that is there already is replaced in its place. -/
def assignType (types : List TypeModel) (m : TypeModel) : List TypeModel :=
  if m.name ∈ types.map TypeModel.name then
    types.map fun other => if other.name = m.name then m else other
  else types ++ [m]

theorem assignType_names (types : List TypeModel) (m : TypeModel) :
    (assignType types m).map TypeModel.name =
      if m.name ∈ types.map TypeModel.name then types.map TypeModel.name
      else types.map TypeModel.name ++ [m.name] := by
  unfold assignType
  split
  · rw [List.map_map]
    apply List.map_congr_left
    intro other _
    by_cases same : other.name = m.name
    · simp [same]
    · simp [same]
  · rw [List.map_append]
    rfl

theorem find_assignType (types : List TypeModel) (m : TypeModel) (name : String) :
    ((assignType types m).find? fun other => other.name == name) =
      if name = m.name then some m else types.find? fun other => other.name == name := by
  unfold assignType
  split
  · next known =>
    have keeps : ((fun other : TypeModel => other.name == name) ∘
        fun other => if other.name = m.name then m else other) =
        fun other => other.name == name := by
      funext other
      by_cases same : other.name = m.name
      · simp [same]
      · simp [same]
    rw [List.find?_map, keeps]
    cases found : types.find? fun other => other.name == name with
    | none =>
        have wanted : name ≠ m.name := by
          intro same
          rcases List.mem_map.mp known with ⟨other, inside, named⟩
          have miss := List.find?_eq_none.mp found other inside
          simp [named, same] at miss
        rw [if_neg wanted]
        rfl
    | some other =>
        have named : other.name = name := by simpa using List.find?_some found
        rw [Option.map_some, named]
        split
        · rfl
        · rfl
  · next absent =>
    rw [List.find?_append, List.find?_singleton]
    by_cases wanted : name = m.name
    · have miss : types.find? (fun other => other.name == name) = none := by
        rw [List.find?_eq_none]
        intro other inside named
        have same : other.name = m.name := by simpa [wanted] using named
        exact absent (same ▸ List.mem_map_of_mem inside)
      rw [miss, wanted]
      simp
    · have other : (m.name == name) = false := by simpa using Ne.symm wanted
      simp [other, wanted]

def addType (schema : SchemaModel) (m : TypeModel) : SchemaModel where
  types := assignType schema.types m
  globalElements := schema.globalElements
  nodupNames := by
    rw [assignType_names]
    split
    · exact schema.nodupNames
    · next absent =>
      apply List.nodup_append.mpr
      refine ⟨schema.nodupNames, by simp, ?_⟩
      intro name inside other isNew same
      rw [List.mem_singleton.mp isNew] at same
      exact absent (same ▸ inside)

/-- A global element without a name is left out. -/
def addGlobal (schema : SchemaModel) (elem : ElementDecl) : SchemaModel :=
  match elem.name.filter (· ≠ "") with
  | none => schema
  | some name => { schema with
      globalElements := schema.globalElements ++ [⟨name, localName (elem.type.getD "")⟩] }

def parseSchema (schema : SchemaModel) (root : Document) : SchemaModel :=
  let withElements := root.elements.foldl addGlobal schema
  let withComplex := (root.complexTypes.filterMap parseComplexType).foldl addType withElements
  (root.simpleTypes.filterMap parseSimpleType).foldl addType withComplex

/-- `parse_all`, on the documents in the order of their file names. -/
def parseAll (documents : List Document) : SchemaModel :=
  documents.foldl parseSchema ⟨[], [], List.nodup_nil⟩

def typesOf (root : Document) : List TypeModel :=
  root.complexTypes.filterMap parseComplexType ++ root.simpleTypes.filterMap parseSimpleType

theorem find_addType (schema : SchemaModel) (m : TypeModel) (name : String) :
    (addType schema m).find name = if name = m.name then some m else schema.find name :=
  find_assignType schema.types m name

theorem find_addTypes (models : List TypeModel) (schema : SchemaModel) (name : String) :
    (models.foldl addType schema).find name =
      ((models.reverse.find? fun m => m.name == name).or (schema.find name)) := by
  induction models generalizing schema with
  | nil => rfl
  | cons first rest ih =>
      rw [List.foldl_cons, ih, find_addType, List.reverse_cons, List.find?_append,
        List.find?_singleton, Option.or_assoc]
      by_cases wanted : name = first.name
      · simp [wanted]
      · have other : (first.name == name) = false := by simpa using Ne.symm wanted
        simp [other, wanted]

@[simp] theorem addGlobal_types (schema : SchemaModel) (elem : ElementDecl) :
    (addGlobal schema elem).types = schema.types := by
  unfold addGlobal
  split
  · rfl
  · rfl

theorem find_addGlobals (elements : List ElementDecl) (schema : SchemaModel) (name : String) :
    (elements.foldl addGlobal schema).find name = schema.find name := by
  induction elements generalizing schema with
  | nil => rfl
  | cons first rest ih =>
      rw [List.foldl_cons, ih]
      simp [SchemaModel.find]

theorem find_parseSchema (schema : SchemaModel) (root : Document) (name : String) :
    (parseSchema schema root).find name =
      (((typesOf root).reverse.find? fun m => m.name == name).or (schema.find name)) := by
  rw [parseSchema, find_addTypes, find_addTypes, find_addGlobals, typesOf, List.reverse_append,
    List.find?_append, Option.or_assoc]

/-- Under a name stands the type of that name that was read last. -/
theorem find_parseAll (documents : List Document) (name : String) :
    (parseAll documents).find name =
      (documents.flatMap typesOf).reverse.find? fun m => m.name == name := by
  have whole : ∀ schema : SchemaModel, (documents.foldl parseSchema schema).find name =
      ((documents.flatMap typesOf).reverse.find? fun m => m.name == name).or
        (schema.find name) := by
    induction documents with
    | nil => intro schema; rfl
    | cons first rest ih =>
        intro schema
        rw [List.foldl_cons, ih, find_parseSchema, List.flatMap_cons, List.reverse_append,
          List.find?_append, Option.or_assoc]
  rw [parseAll, whole]
  exact Option.or_none

theorem find_of_typesOf {documents : List Document}
    (distinct : ((documents.flatMap typesOf).map TypeModel.name).Nodup) {m : TypeModel}
    (member : m ∈ documents.flatMap typesOf) : (parseAll documents).find m.name = some m := by
  rw [find_parseAll]
  have reversed : ((documents.flatMap typesOf).reverse.map TypeModel.name).Nodup := by
    rw [List.map_reverse]
    exact List.pairwise_reverse.mpr (distinct.imp Ne.symm)
  exact SchemaModel.find_of_mem ⟨_, [], reversed⟩ (List.mem_reverse.mpr member)

end Arcal.Compiler
