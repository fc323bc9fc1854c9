import Arcal.Schema.Model
import Mathlib.Data.Finset.Card
import Mathlib.Data.Fintype.Card
import Mathlib.Logic.Relation

/-! What the compiler generates for a type, with every reference resolved: the
storage of an `Impl` class, unfolded. References are resolved the way the
templates do, primitives first, then simple restrictions, then declared types. -/

namespace Arcal.Schema

mutual
/-- Storage of one value: a primitive, an enum class or a complex class. -/
inductive Elem
  | prim (cxxType : CxxType)
  | enum (name : String) (enumValues : List String)
  | cls (name : String) (body : Members)

/-- The members of a complex class: base part, choice, then fields. -/
inductive Members
  | nil
  | base (name : String) (body : Members) (rest : Members)
  | choice (variants : Variants) (rest : Members)
  | required (name : String) (elem : Elem) (rest : Members)
  | optional (name : String) (elem : Elem) (rest : Members)
  | list (name : String) (maxOccurs : Option Nat) (elem : Elem) (rest : Members)

inductive Variants
  | nil
  | cons (name : String) (elem : Elem) (rest : Variants)
end

/-- The storage a field or variant of this type name gets. -/
def reference (schema : SchemaModel) (generated : TypeModel → Option Elem)
    (typeName : String) : Option Elem :=
  match cxxPrimitiveMap.lookup typeName with
  | some cxxType => some (.prim cxxType)
  | none =>
    match schema.find typeName with
    | none => none
    | some m =>
      match m.kind with
      | .simpleRestriction base => some (.prim (restrictionCxxBaseType m.name base))
      | _ => generated m

def variantsOf (refer : String → Option Elem) : List FieldModel → Option Variants
  | [] => some .nil
  | variant :: rest => do
      let elem ← refer variant.typeName
      let others ← variantsOf refer rest
      return .cons variant.name elem others

/-- One member per field. A UUID outside a list is stored plain even when it may be absent. -/
def fieldsOf (refer : String → Option Elem) : List FieldModel → Option Members
  | [] => some .nil
  | field :: rest => do
      let elem ← refer field.typeName
      let others ← fieldsOf refer rest
      return match field.listKind with
        | some .bounded => .list field.name (some field.maxOccursVal.toNat) elem others
        | some .unbounded => .list field.name none elem others
        | none =>
          if field.isUuid then .required field.name elem others
          else if field.optional then .optional field.name elem others
          else .required field.name elem others

/-- A second choice would declare the same enum, ordinal and accessors again. -/
def choicesOf (refer : String → Option Elem) (choices : List ChoiceModel)
    (rest : Members) : Option Members :=
  match choices with
  | [] => some rest
  | [choice] => (variantsOf refer choice.variants).map (Members.choice · rest)
  | _ :: _ :: _ => none

/-- A base that is missing, empty or a primitive leaves no part. -/
def baseName (baseType : Option String) : Option String :=
  baseType.filter fun name => name ≠ "" ∧ name ∉ primitiveTypes

def baseOf (schema : SchemaModel) (generated : TypeModel → Option Elem)
    (baseType : Option String) (rest : Members) : Option Members :=
  match baseName baseType with
  | none => some rest
  | some name =>
    match (schema.find name).bind generated with
    | some (.cls _ body) => some (.base name body rest)
    | _ => none

/-- The class generated for a type, references followed `depth` deep. A simple
restriction is a typedef and gets no class. -/
def generatedAt (schema : SchemaModel) : Nat → TypeModel → Option Elem
  | depth, m =>
    match m.kind with
    | .simpleRestriction _ => none
    | .enumeration enumValues => some (.enum m.name enumValues)
    | .complex fields choices baseType =>
      match depth with
      | 0 => none
      | depth + 1 => do
          let refer := reference schema (generatedAt schema depth)
          let own ← fieldsOf refer fields
          let chosen ← choicesOf refer choices own
          let body ← baseOf schema (generatedAt schema depth) baseType chosen
          return .cls m.name body

/-- Acyclic references cannot be followed deeper than there are types. -/
def layout (schema : SchemaModel) (typeName : String) : Option Elem :=
  (schema.find typeName).bind (generatedAt schema schema.types.length)

def elementTypes (m : TypeModel) : List String :=
  match m.kind with
  | .complex fields choices _ =>
      fields.map FieldModel.typeName ++
        choices.flatMap fun choice => choice.variants.map FieldModel.typeName
  | _ => []

def TypeModel.baseType (m : TypeModel) : Option String :=
  match m.kind with
  | .complex _ _ baseType => baseType
  | _ => none

def TypeModel.choices (m : TypeModel) : List ChoiceModel :=
  match m.kind with
  | .complex _ choices _ => choices
  | _ => []

/-- A type mentions a declared type: as a field, as a variant or as its base. -/
def Refers (schema : SchemaModel) (from' to' : String) : Prop :=
  ∃ m, schema.find from' = some m ∧
    (to' ∈ elementTypes m ∧ to' ∉ primitiveTypes ∨ baseName m.baseType = some to')

/-- The schemas whose generated code has a meaning. -/
structure WellFormed (schema : SchemaModel) : Prop where
  elements : ∀ m ∈ schema.types, ∀ name ∈ elementTypes m,
    name ∈ primitiveTypes ∨ (schema.find name).isSome
  bases : ∀ m ∈ schema.types, ∀ name, m.baseType = some name →
    name ∈ primitiveTypes ∨ ∃ base, schema.find name = some base ∧ base.isComplex
  acyclic : ∀ name, ¬ Relation.TransGen (Refers schema) name name
  oneChoice : ∀ m ∈ schema.types, m.choices.length ≤ 1

section Existence

variable {schema : SchemaModel}

theorem isSome_fieldsOf {refer : String → Option Elem} {fields : List FieldModel}
    (resolved : ∀ field ∈ fields, (refer field.typeName).isSome) :
    (fieldsOf refer fields).isSome := by
  induction fields with
  | nil => rfl
  | cons field rest ih =>
      rcases Option.isSome_iff_exists.mp (resolved field (by simp)) with ⟨elem, here⟩
      obtain ⟨others, there⟩ := Option.isSome_iff_exists.mp
        (ih fun other member => resolved other (List.mem_cons_of_mem _ member))
      simp [fieldsOf, here, there]

theorem isSome_variantsOf {refer : String → Option Elem} {variants : List FieldModel}
    (resolved : ∀ variant ∈ variants, (refer variant.typeName).isSome) :
    (variantsOf refer variants).isSome := by
  induction variants with
  | nil => rfl
  | cons variant rest ih =>
      rcases Option.isSome_iff_exists.mp (resolved variant (by simp)) with ⟨elem, here⟩
      obtain ⟨others, there⟩ := Option.isSome_iff_exists.mp
        (ih fun other member => resolved other (List.mem_cons_of_mem _ member))
      simp [variantsOf, here, there]

theorem isSome_choicesOf {refer : String → Option Elem} {choices : List ChoiceModel}
    (rest : Members) (one : choices.length ≤ 1)
    (resolved : ∀ choice ∈ choices, ∀ variant ∈ choice.variants, (refer variant.typeName).isSome) :
    (choicesOf refer choices rest).isSome := by
  match choices, one with
  | [], _ => rfl
  | [choice], _ =>
      simp only [choicesOf, Option.isSome_map]
      exact isSome_variantsOf (resolved choice (by simp))

open Classical in
noncomputable def reachable (schema : SchemaModel) (name : String) : Finset String :=
  (schema.types.map TypeModel.name).toFinset.filter (Relation.ReflTransGen (Refers schema) name)

open Classical in
theorem reachable_card_le (name : String) :
    (reachable schema name).card ≤ schema.types.length := by
  calc
    (reachable schema name).card ≤ (schema.types.map TypeModel.name).toFinset.card :=
      Finset.card_filter_le _ _
    _ ≤ (schema.types.map TypeModel.name).length := List.toFinset_card_le _
    _ = schema.types.length := List.length_map _

/-- Acyclicity makes every reference lead to a smaller set of types. -/
theorem reachable_card_lt (wf : WellFormed schema) {m : TypeModel} (member : m ∈ schema.types)
    {name : String} (refers : Refers schema m.name name) :
    (reachable schema name).card < (reachable schema m.name).card := by
  apply Finset.card_lt_card
  refine (Finset.ssubset_iff_of_subset ?_).mpr ⟨m.name, ?_, ?_⟩
  · intro other inside
    simp only [reachable, Finset.mem_filter] at inside ⊢
    exact ⟨inside.1, Relation.ReflTransGen.head refers inside.2⟩
  · simp only [reachable, Finset.mem_filter, List.mem_toFinset]
    exact ⟨List.mem_map_of_mem member, Relation.ReflTransGen.refl⟩
  · intro inside
    simp only [reachable, Finset.mem_filter] at inside
    exact wf.acyclic m.name (Relation.TransGen.head' refers inside.2)

theorem baseName_eq_some {baseType : Option String} {name : String}
    (kept : baseName baseType = some name) : baseType = some name ∧ name ∉ primitiveTypes := by
  rw [baseName, Option.filter_eq_some_iff] at kept
  simp only [decide_eq_true_eq] at kept
  exact ⟨kept.1, kept.2.2⟩

theorem reference_cases {generated : TypeModel → Option Elem} {typeName : String} {e : Elem}
    (referred : reference schema generated typeName = some e) :
    (∃ t, e = .prim t) ∨ ∃ m, schema.find typeName = some m ∧ generated m = some e := by
  unfold reference at referred
  split at referred
  · injection referred with same
    exact .inl ⟨_, same.symm⟩
  · split at referred
    · cases referred
    · next m found =>
      split at referred
      · injection referred with same
        exact .inl ⟨_, same.symm⟩
      · exact .inr ⟨m, found, referred⟩

theorem baseOf_cases {generated : TypeModel → Option Elem} {baseType : Option String}
    {rest body : Members} (made : baseOf schema generated baseType rest = some body) :
    body = rest ∨ ∃ name base baseClass inner, baseName baseType = some name ∧
      schema.find name = some base ∧ generated base = some (.cls baseClass inner) ∧
      body = .base name inner rest := by
  unfold baseOf at made
  split at made
  · injection made with same
    exact .inl same.symm
  · next name kept =>
    split at made
    · next baseClass inner baseMade =>
      rcases Option.bind_eq_some_iff.mp baseMade with ⟨base, found, generated⟩
      injection made with same
      exact .inr ⟨name, base, baseClass, inner, kept, found, generated, same.symm⟩
    · cases made

theorem generatedAt_cases {depth : Nat} {m : TypeModel} {e : Elem}
    (made : generatedAt schema depth m = some e) :
    (∃ enumValues, m.kind = .enumeration enumValues ∧ e = .enum m.name enumValues) ∨
    ∃ below fields choices baseType own chosen body, depth = below + 1 ∧
      m.kind = .complex fields choices baseType ∧
      fieldsOf (reference schema (generatedAt schema below)) fields = some own ∧
      choicesOf (reference schema (generatedAt schema below)) choices own = some chosen ∧
      baseOf schema (generatedAt schema below) baseType chosen = some body ∧
      e = .cls m.name body := by
  unfold generatedAt at made
  cases shape : m.kind with
  | simpleRestriction base => simp [shape] at made
  | enumeration enumValues =>
      simp only [shape, Option.some.injEq] at made
      exact .inl ⟨enumValues, rfl, made.symm⟩
  | complex fields choices baseType =>
      cases depth with
      | zero => simp [shape] at made
      | succ below =>
          simp only [shape, Option.bind_eq_bind, Option.bind_eq_some_iff, Option.pure_def,
            Option.some.injEq] at made
          rcases made with ⟨own, ownMade, chosen, chosenMade, body, bodyMade, same⟩
          exact .inr ⟨below, fields, choices, baseType, own, chosen, body, rfl, rfl, ownMade,
            chosenMade, bodyMade, same.symm⟩

theorem generatedAt_complex {depth : Nat} {m : TypeModel} {fields : List FieldModel}
    {choices : List ChoiceModel} {baseType : Option String} {elem : Elem}
    (shape : m.kind = .complex fields choices baseType)
    (made : generatedAt schema depth m = some elem) : ∃ body, elem = .cls m.name body := by
  rcases generatedAt_cases made with ⟨enumValues, other, _⟩ |
    ⟨_, _, _, _, _, _, body, _, _, _, _, _, same⟩
  · rw [shape] at other
    cases other
  · exact ⟨body, same⟩

theorem isSome_reference (wf : WellFormed schema) {m : TypeModel} (member : m ∈ schema.types)
    {generated : TypeModel → Option Elem} {name : String} (mentioned : name ∈ elementTypes m)
    (below : name ∉ primitiveTypes → ∀ target, schema.find name = some target →
      target.isSimpleRestriction = false → (generated target).isSome) :
    (reference schema generated name).isSome := by
  unfold reference
  cases known : cxxPrimitiveMap.lookup name with
  | some cxxType => rfl
  | none =>
      have declared : name ∉ primitiveTypes := by
        rw [mem_primitiveTypes_iff, known]
        simp
      obtain ⟨target, found⟩ := Option.isSome_iff_exists.mp
        ((wf.elements m member name mentioned).resolve_left declared)
      have class' := below declared target found
      simp only [found]
      cases shape : target.kind with
      | simpleRestriction base => rfl
      | enumeration enumValues => exact class' (by simp [TypeModel.isSimpleRestriction, shape])
      | complex fields choices baseType =>
          exact class' (by simp [TypeModel.isSimpleRestriction, shape])

theorem isSome_baseOf (wf : WellFormed schema) {m : TypeModel} (member : m ∈ schema.types)
    {depth : Nat} (rest : Members)
    (below : ∀ name target, baseName m.baseType = some name → schema.find name = some target →
      target.isSimpleRestriction = false → (generatedAt schema depth target).isSome) :
    (baseOf schema (generatedAt schema depth) m.baseType rest).isSome := by
  unfold baseOf
  cases kept : baseName m.baseType with
  | none => rfl
  | some name =>
      rcases baseName_eq_some kept with ⟨same, notPrimitive⟩
      rcases (wf.bases m member name same).resolve_left notPrimitive with ⟨base, found, complex⟩
      cases shape : base.kind with
      | simpleRestriction inner => simp [TypeModel.isComplex, shape] at complex
      | enumeration enumValues => simp [TypeModel.isComplex, shape] at complex
      | complex inner innerChoices innerBase =>
          obtain ⟨elem, made⟩ := Option.isSome_iff_exists.mp
            (below name base kept found (by simp [TypeModel.isSimpleRestriction, shape]))
          rcases generatedAt_complex shape made with ⟨body, rfl⟩
          simp [found, made]

theorem isSome_generatedAt (wf : WellFormed schema) (depth : Nat) (m : TypeModel)
    (member : m ∈ schema.types) (classy : m.isSimpleRestriction = false)
    (deep : (reachable schema m.name).card ≤ depth) : (generatedAt schema depth m).isSome := by
  induction depth generalizing m with
  | zero =>
      have self : m.name ∈ reachable schema m.name := by
        simp only [reachable, Finset.mem_filter, List.mem_toFinset]
        exact ⟨List.mem_map_of_mem member, Relation.ReflTransGen.refl⟩
      have positive := Finset.card_pos.mpr ⟨_, self⟩
      omega
  | succ depth ih =>
      have here := SchemaModel.find_of_mem schema member
      have below : ∀ name target, Refers schema m.name name → schema.find name = some target →
          target.isSimpleRestriction = false → (generatedAt schema depth target).isSome := by
        intro name target refers found targetClassy
        have smaller := reachable_card_lt wf member refers
        rw [← SchemaModel.find_name found] at smaller
        exact ih target (SchemaModel.find_mem found) targetClassy (by omega)
      have resolved : ∀ name ∈ elementTypes m,
          (reference schema (generatedAt schema depth) name).isSome := by
        intro name mentioned
        refine isSome_reference wf member mentioned ?_
        intro declared target found
        exact below name target ⟨m, here, .inl ⟨mentioned, declared⟩⟩ found
      cases shape : m.kind with
      | simpleRestriction base => simp [TypeModel.isSimpleRestriction, shape] at classy
      | enumeration enumValues => simp [generatedAt, shape]
      | complex fields choices baseType =>
          simp only [elementTypes, shape, List.mem_append, List.mem_flatMap] at resolved
          obtain ⟨own, ownEq⟩ := Option.isSome_iff_exists.mp
            (isSome_fieldsOf fun field inside =>
              resolved _ (.inl (List.mem_map_of_mem inside)))
          have single : choices.length ≤ 1 := by
            simpa [TypeModel.choices, shape] using wf.oneChoice m member
          obtain ⟨chosen, chosenEq⟩ := Option.isSome_iff_exists.mp
            (isSome_choicesOf own single fun choice inside variant within =>
              resolved _ (.inr ⟨choice, inside, List.mem_map_of_mem within⟩))
          have based := isSome_baseOf wf member chosen fun name target kept =>
            below name target ⟨m, here, .inr kept⟩
          rw [show m.baseType = baseType by simp [TypeModel.baseType, shape]] at based
          rcases Option.isSome_iff_exists.mp based with ⟨body, bodyEq⟩
          simp [generatedAt, shape, ownEq, chosenEq, bodyEq]

theorem exists_layout (wf : WellFormed schema) {typeName : String} {m : TypeModel}
    (found : schema.find typeName = some m) (classy : m.isSimpleRestriction = false) :
    ∃ elem, layout schema typeName = some elem := by
  apply Option.isSome_iff_exists.mp
  simp only [layout, found, Option.bind_some]
  exact isSome_generatedAt wf _ m (SchemaModel.find_mem found) classy (reachable_card_le m.name)

theorem find_of_layout {typeName : String} {e : Elem} (laidOut : layout schema typeName = some e) :
    ∃ m, schema.find typeName = some m ∧ m.isSimpleRestriction = false := by
  unfold layout at laidOut
  rcases Option.bind_eq_some_iff.mp laidOut with ⟨m, found, made⟩
  refine ⟨m, found, ?_⟩
  rcases generatedAt_cases made with ⟨_, shape, _⟩ | ⟨_, _, _, _, _, _, _, _, shape, _⟩
  · simp [TypeModel.isSimpleRestriction, shape]
  · simp [TypeModel.isSimpleRestriction, shape]

theorem acyclic_of_rank (rank : String → Nat)
    (descends : ∀ m ∈ schema.types, ∀ name,
      (name ∈ elementTypes m ∧ name ∉ primitiveTypes ∨ baseName m.baseType = some name) →
        rank name < rank m.name) (name : String) :
    ¬ Relation.TransGen (Refers schema) name name := by
  have down : ∀ a b, Relation.TransGen (Refers schema) a b → rank b < rank a := by
    intro a b path
    induction path with
    | single step =>
        rcases step with ⟨m, found, mentioned⟩
        rw [← SchemaModel.find_name found]
        exact descends m (SchemaModel.find_mem found) _ mentioned
    | tail _ step ih =>
        rcases step with ⟨m, found, mentioned⟩
        have lower := descends m (SchemaModel.find_mem found) _ mentioned
        rw [SchemaModel.find_name found] at lower
        exact Nat.lt_trans lower ih
  intro cycle
  exact Nat.lt_irrefl _ (down name name cycle)

end Existence

section Sample

/-- A message with a base part, a choice, a bounded list, optionals and an enumeration. -/
def sampleSchema : SchemaModel where
  types := [
    ⟨"ModeEnum", .enumeration ["idle", "active"]⟩,
    ⟨"NameType", .simpleRestriction "token"⟩,
    ⟨"HeaderType", .complex
      [⟨"id", uuidTypeName, 1, 1⟩, ⟨"label", "NameType", 0, 1⟩] [] none⟩,
    ⟨"TrackMDT", .complex
      [⟨"mode", "ModeEnum", 0, 1⟩, ⟨"points", "short", 0, 3⟩, ⟨"headers", "HeaderType", 0, -1⟩]
      [⟨[⟨"speed", "double", 1, 1⟩, ⟨"header", "HeaderType", 1, 1⟩]⟩] (some "HeaderType")⟩]
  globalElements := [⟨"Track", "TrackMDT"⟩, ⟨"Header", "HeaderType"⟩]
  nodupNames := by decide

theorem sampleSchema_wellFormed : WellFormed sampleSchema where
  elements := by decide
  bases := by
    intro m member name based
    have target : name = "HeaderType" := by
      simp only [sampleSchema, List.mem_cons, List.not_mem_nil, or_false] at member
      rcases member with rfl | rfl | rfl | rfl <;> simp [TypeModel.baseType] at based
      exact based.symm
    subst target
    exact .inr ⟨_, rfl, rfl⟩
  acyclic := by
    refine acyclic_of_rank (fun name =>
      if name = "TrackMDT" then 2 else if name = "HeaderType" then 1 else 0) ?_
    intro m member name mentioned
    have below : ∀ m ∈ sampleSchema.types,
        ∀ name ∈ (elementTypes m).filter (· ∉ primitiveTypes) ++ (baseName m.baseType).toList,
          (if name = "TrackMDT" then 2 else if name = "HeaderType" then 1 else 0) <
            (if m.name = "TrackMDT" then 2 else if m.name = "HeaderType" then 1 else 0) := by
      decide
    refine below m member name ?_
    rcases mentioned with ⟨field, declared⟩ | base
    · exact List.mem_append_left _ (List.mem_filter.mpr ⟨field, by simpa using declared⟩)
    · exact List.mem_append_right _ (by rw [base]; simp)
  oneChoice := by decide

def headerMembers : Members :=
  .required "id" (.prim .uuid) (.optional "label" (.prim .string) .nil)

def headerLayout : Elem := .cls "HeaderType" headerMembers

theorem layout_header : layout sampleSchema "HeaderType" = some headerLayout := by rfl

def trackLayout : Elem :=
  .cls "TrackMDT" (.base "HeaderType" headerMembers
    (.choice (.cons "speed" (.prim .double) (.cons "header" (.cls "HeaderType" headerMembers) .nil))
      (.optional "mode" (.enum "ModeEnum" ["idle", "active"])
        (.list "points" (some 3) (.prim .int16)
          (.list "headers" none (.cls "HeaderType" headerMembers) .nil)))))

theorem layout_sampleSchema : layout sampleSchema "TrackMDT" = some trackLayout := by rfl

end Sample

end Arcal.Schema
