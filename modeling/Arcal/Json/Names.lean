import Arcal.Json.RoundTrip

/-! The names of a schema's elements. Names that differ along every extension chain make
the members of every JSON object differ. -/

namespace Arcal.Json

open Schema
open JsonText (Value)

def ownNames (m : TypeModel) : List String :=
  match m.kind with
  | .complex fields choices _ =>
      (choices.flatMap fun choice => choice.variants.map FieldModel.name) ++
        fields.map FieldModel.name
  | _ => []

def Extends (schema : SchemaModel) (from' to' : String) : Prop :=
  ∃ m, schema.find from' = some m ∧ baseName m.baseType = some to'

/-- Element names are names of identifiers, and distinct along each extension chain. -/
structure DistinctNames (schema : SchemaModel) : Prop where
  plain : ∀ m ∈ schema.types, ∀ name ∈ ownNames m, Plain name
  own : ∀ m ∈ schema.types, (ownNames m).Nodup
  inherited : ∀ m ∈ schema.types, ∀ base ∈ schema.types,
    Relation.TransGen (Extends schema) m.name base.name →
      ∀ name ∈ ownNames m, name ∉ ownNames base

section Layout

variable {schema : SchemaModel}

/-- The elements that references lead to are keyed. -/
def KeyedReferences (refer : String → Option Elem) : Prop :=
  ∀ typeName e, refer typeName = some e → Elem.Keyed e

theorem keyed_prim (t : CxxType) : Elem.Keyed (.prim t) := by simp only [Elem.Keyed]

theorem keyed_variantsOf {refer : String → Option Elem} (keyed : KeyedReferences refer)
    {variants : List FieldModel} {vs : Variants} (made : variantsOf refer variants = some vs)
    (plain : ∀ variant ∈ variants, Plain variant.name) :
    Variants.Keyed vs ∧ Variants.keys vs = variants.map FieldModel.name := by
  induction variants generalizing vs with
  | nil =>
      injection made with same
      rw [← same]
      simp [Variants.Keyed, Variants.keys]
  | cons variant rest ih =>
      simp only [variantsOf, Option.bind_eq_bind, Option.bind_eq_some_iff, Option.pure_def,
        Option.some.injEq] at made
      rcases made with ⟨elem, referred, others, later, same⟩
      have tail := ih later fun other member => plain other (List.mem_cons_of_mem _ member)
      rw [← same]
      simp only [Variants.Keyed, Variants.keys, List.map_cons, tail.2]
      exact ⟨⟨plain variant (by simp), keyed _ _ referred, tail.1⟩, trivial⟩

theorem keyed_fieldsOf {refer : String → Option Elem} (keyed : KeyedReferences refer)
    {fields : List FieldModel} {ms : Members} (made : fieldsOf refer fields = some ms)
    (plain : ∀ field ∈ fields, Plain field.name) :
    Members.Keyed ms ∧ Members.keys ms = fields.map FieldModel.name := by
  induction fields generalizing ms with
  | nil =>
      injection made with same
      rw [← same]
      simp [Members.Keyed, Members.keys]
  | cons field rest ih =>
      simp only [fieldsOf, Option.bind_eq_bind, Option.bind_eq_some_iff, Option.pure_def,
        Option.some.injEq] at made
      rcases made with ⟨elem, referred, others, later, same⟩
      have tail := ih later fun other member => plain other (List.mem_cons_of_mem _ member)
      have here : Plain field.name ∧ Elem.Keyed elem ∧ Members.Keyed others :=
        ⟨plain field (by simp), keyed _ _ referred, tail.1⟩
      rw [← same]
      split
      · simp only [Members.Keyed, Members.keys, List.map_cons, tail.2]
        exact ⟨here, trivial⟩
      · simp only [Members.Keyed, Members.keys, List.map_cons, tail.2]
        exact ⟨here, trivial⟩
      · split
        · simp only [Members.Keyed, Members.keys, List.map_cons, tail.2]
          exact ⟨here, trivial⟩
        · split
          · simp only [Members.Keyed, Members.keys, List.map_cons, tail.2]
            exact ⟨here, trivial⟩
          · simp only [Members.Keyed, Members.keys, List.map_cons, tail.2]
            exact ⟨here, trivial⟩

theorem keyed_choicesOf {refer : String → Option Elem} (keyed : KeyedReferences refer)
    {choices : List ChoiceModel} {rest ms : Members}
    (made : choicesOf refer choices rest = some ms) (keyedRest : Members.Keyed rest)
    (plain : ∀ choice ∈ choices, ∀ variant ∈ choice.variants, Plain variant.name) :
    Members.Keyed ms ∧ Members.keys ms =
      (choices.flatMap fun choice => choice.variants.map FieldModel.name) ++
        Members.keys rest := by
  match choices with
  | [] =>
      injection made with same
      rw [← same]
      simp [keyedRest]
  | [choice] =>
      simp only [choicesOf, Option.map_eq_some_iff] at made
      rcases made with ⟨vs, variants, same⟩
      have inner := keyed_variantsOf keyed variants (plain choice (by simp))
      rw [← same]
      simp only [Members.Keyed, Members.keys, inner.2, List.flatMap_cons, List.flatMap_nil,
        List.append_nil]
      exact ⟨⟨inner.1, keyedRest⟩, trivial⟩
  | _ :: _ :: _ => cases made

/-- A key of a class is declared by the class or by a type it extends. -/
def Inherits (schema : SchemaModel) (m : TypeModel) (name : String) : Prop :=
  name ∈ ownNames m ∨ ∃ base ∈ schema.types,
    Relation.TransGen (Extends schema) m.name base.name ∧ name ∈ ownNames base

theorem keyed_generatedAt (names : DistinctNames schema) (depth : Nat) {m : TypeModel}
    (member : m ∈ schema.types) {e : Elem} (made : generatedAt schema depth m = some e) :
    Elem.Keyed e ∧ ∀ name body, e = .cls name body →
      ∀ key ∈ Members.keys body, Inherits schema m key := by
  induction depth using Nat.strong_induction_on generalizing m e with
  | _ depth ih =>
      rcases generatedAt_cases made with ⟨_, _, rfl⟩ |
        ⟨below, fields, choices, baseType, own, chosen, body, rfl, shape, ownMade, chosenMade,
          bodyMade, rfl⟩
      · exact ⟨by simp only [Elem.Keyed], fun _ _ other => by cases other⟩
      · have references : KeyedReferences (reference schema (generatedAt schema below)) := by
          intro typeName elem referred
          rcases reference_cases referred with ⟨t, rfl⟩ | ⟨target, found, generated⟩
          · exact keyed_prim t
          · exact (ih below (Nat.lt_succ_self below) (SchemaModel.find_mem found) generated).1
        have plain := names.plain m member
        have distinct := names.own m member
        simp only [ownNames, shape, List.mem_append, List.mem_flatMap] at plain distinct
        have fieldsKeyed := keyed_fieldsOf references ownMade fun field inside =>
          plain _ (.inr (List.mem_map_of_mem inside))
        have chosenKeyed := keyed_choicesOf references chosenMade fieldsKeyed.1
          fun choice inside variant within =>
            plain _ (.inl ⟨choice, inside, List.mem_map_of_mem within⟩)
        have ownKeys : Members.keys chosen = ownNames m := by
          rw [chosenKeyed.2, fieldsKeyed.2, ownNames, shape]
        rcases baseOf_cases bodyMade with rfl |
          ⟨name, base, baseClass, baseBody, kept, found, generated, rfl⟩
        · simp only [Elem.Keyed, ownKeys]
          refine ⟨⟨names.own m member, chosenKeyed.1⟩, ?_⟩
          intro name body classEq key known
          injection classEq with _ classBody
          rw [← classBody, ownKeys] at known
          exact .inl known
        · have baseIn := SchemaModel.find_mem found
          have inner := ih below (Nat.lt_succ_self below) baseIn generated
          simp only [Elem.Keyed] at inner
          have extended : Extends schema m.name base.name := by
            refine ⟨m, SchemaModel.find_of_mem schema member, ?_⟩
            rw [SchemaModel.find_name found, ← kept, TypeModel.baseType, shape]
          have baseKeys : ∀ key ∈ Members.keys baseBody, ∃ ancestor ∈ schema.types,
              Relation.TransGen (Extends schema) m.name ancestor.name ∧
                key ∈ ownNames ancestor := by
            intro key known
            rcases inner.2 _ _ rfl key known with direct | ⟨ancestor, there, path, declared⟩
            · exact ⟨base, baseIn, .single extended, direct⟩
            · exact ⟨ancestor, there, .head extended path, declared⟩
          simp only [Elem.Keyed, Members.keys, Members.Keyed]
          refine ⟨⟨?_, inner.1.2, chosenKeyed.1⟩, ?_⟩
          · rw [List.nodup_append, ownKeys]
            refine ⟨inner.1.1, names.own m member, ?_⟩
            intro key fromBase other fromOwn clash
            rcases baseKeys key fromBase with ⟨ancestor, there, path, declared⟩
            exact names.inherited m member ancestor there path key (clash ▸ fromOwn) declared
          · intro name body classEq key known
            injection classEq with _ classBody
            rw [← classBody, Members.keys, List.mem_append, ownKeys] at known
            rcases known with fromBase | fromOwn
            · exact .inr (baseKeys key fromBase)
            · exact .inl fromOwn

theorem keyed_layout (names : DistinctNames schema) {typeName : String} {e : Elem}
    (laidOut : layout schema typeName = some e) : Elem.Keyed e := by
  unfold layout at laidOut
  rcases Option.bind_eq_some_iff.mp laidOut with ⟨m, found, made⟩
  exact (keyed_generatedAt names _ (SchemaModel.find_mem found) made).1

end Layout

end Arcal.Json
