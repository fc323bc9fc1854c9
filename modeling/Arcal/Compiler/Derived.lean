import Arcal.Compiler.Handlers
import Arcal.Compiler.Parser

/-! Simple types that restrict one another: a restriction looks at the name of its base only, so
the primitive at the bottom of a chain is one step away or out of sight. -/

namespace Arcal.Compiler

open Schema

/-- A named simple type that restricts `base` and enumerates nothing. -/
structure Restricts (st : SimpleType) (name base : String) : Prop where
  named : st.name = some name
  nonempty : name ≠ ""
  restricted : ∃ written, st.restriction = some ⟨some written, []⟩ ∧ localName written = base

/-- A chain of restrictions, of any length, that starts at `primitive`. -/
inductive Derives (primitive : String) : SimpleType → Prop
  | first {st : SimpleType} {name : String} : Restricts st name primitive → Derives primitive st
  | next {earlier st : SimpleType} {base middle name : String} : Derives primitive earlier →
      Restricts earlier middle base → Restricts st name middle → Derives primitive st

/-- The model has the C++ base, and wherever the type is declared, under a name of its own,
fields of that type are stored and coded as values of that C++ type. -/
def HasBase (cxxType : CxxType) (st : SimpleType) : Prop :=
  ∃ m base, parseSimpleType st = some m ∧ m.kind = .simpleRestriction base ∧
    restrictionCxxBaseType m.name base = cxxType ∧
    ∀ documents, ((documents.flatMap typesOf).map TypeModel.name).Nodup →
      (∃ root ∈ documents, st ∈ root.simpleTypes) →
        valueCode (parseAll documents) m.name = .inline cxxType ∧
        ∀ generated, reference (parseAll documents) generated m.name = some (.prim cxxType)

/-- The base is the one that the table has for the primitive. -/
def KeepsPrimitive (primitive : String) (st : SimpleType) : Prop :=
  ∃ cxxType, cxxPrimitiveMap.lookup primitive = some cxxType ∧ HasBase cxxType st

/-- The type is not called like a primitive that is stored in another way, and the base it names
is either a primitive that is stored in the same way or none at all, where strings are. -/
def BaseAtHand (primitive : String) (st : SimpleType) : Prop :=
  ∃ name base, Restricts st name base ∧
    (cxxPrimitiveMap.lookup name = none ∨
      cxxPrimitiveMap.lookup name = cxxPrimitiveMap.lookup primitive) ∧
    (name = uuidTypeName ∨ cxxPrimitiveMap.lookup base = cxxPrimitiveMap.lookup primitive ∨
      cxxPrimitiveMap.lookup base = none ∧ cxxPrimitiveMap.lookup primitive = some .string)

theorem Derives.restricts {primitive : String} {st : SimpleType} (chain : Derives primitive st) :
    ∃ name base, Restricts st name base := by
  cases chain with
  | first restricts => exact ⟨_, _, restricts⟩
  | next _ _ restricts => exact ⟨_, _, restricts⟩

section Restriction

variable {st : SimpleType} {name base : String} {cxxType : CxxType}

theorem parseSimpleType_restricts (restricts : Restricts st name base) :
    parseSimpleType st = some ⟨name, .simpleRestriction base⟩ := by
  rcases restricts with ⟨named, nonempty, written, restricted, rfl⟩
  have given : st.name.filter (· ≠ "") = some name := by simp [named, nonempty]
  unfold parseSimpleType
  rw [given, restricted]
  rfl

theorem restrictionCxxBaseType_eq_iff (own : cxxPrimitiveMap.lookup name = none ∨
      cxxPrimitiveMap.lookup name = some cxxType) :
    restrictionCxxBaseType name base = cxxType ↔
      name = uuidTypeName ∨ cxxPrimitiveMap.lookup base = some cxxType ∨
        cxxPrimitiveMap.lookup base = none ∧ cxxType = .string := by
  unfold restrictionCxxBaseType
  by_cases isUuid : name = uuidTypeName
  · have known : cxxPrimitiveMap.lookup uuidTypeName = some .uuid := by decide
    rw [if_pos isUuid]
    rw [isUuid, known] at own
    rcases own with impossible | same
    · cases impossible
    · injection same with same
      exact ⟨fun _ => .inl isUuid, fun _ => same⟩
  · rw [if_neg isUuid]
    cases cxxPrimitiveMap.lookup base with
    | none => simp [isUuid, eq_comm]
    | some cxxType' => simp [isUuid]

theorem valueCode_restriction {schema : SchemaModel}
    (found : schema.find name = some ⟨name, .simpleRestriction base⟩) :
    valueCode schema name = .inline
      ((cxxPrimitiveMap.lookup name).getD (restrictionCxxBaseType name base)) := by
  unfold valueCode
  rw [found]
  cases cxxPrimitiveMap.lookup name with
  | none => rfl
  | some cxxType => rfl

theorem reference_restriction {schema : SchemaModel} (generated : TypeModel → Option Elem)
    (found : schema.find name = some ⟨name, .simpleRestriction base⟩) :
    reference schema generated name = some (.prim
      ((cxxPrimitiveMap.lookup name).getD (restrictionCxxBaseType name base))) := by
  unfold reference
  rw [found]
  cases cxxPrimitiveMap.lookup name with
  | none => rfl
  | some cxxType => rfl

theorem find_restriction (restricts : Restricts st name base) {documents : List Document}
    (distinct : ((documents.flatMap typesOf).map TypeModel.name).Nodup)
    (declared : ∃ root ∈ documents, st ∈ root.simpleTypes) :
    (parseAll documents).find name = some ⟨name, .simpleRestriction base⟩ := by
  rcases declared with ⟨root, inside, member⟩
  have typed : TypeModel.mk name (.simpleRestriction base) ∈ typesOf root :=
    List.mem_append_right _
      (List.mem_filterMap.mpr ⟨st, member, parseSimpleType_restricts restricts⟩)
  exact find_of_typesOf distinct (List.mem_flatMap.mpr ⟨root, inside, typed⟩)

theorem hasBase_iff (restricts : Restricts st name base) :
    HasBase cxxType st ↔ restrictionCxxBaseType name base = cxxType ∧
      (cxxPrimitiveMap.lookup name = none ∨ cxxPrimitiveMap.lookup name = some cxxType) := by
  have parsed := parseSimpleType_restricts restricts
  constructor
  · intro keeps
    rcases keeps with ⟨m, base', parsed', kind, sameBase, everywhere⟩
    cases parsed.symm.trans parsed'
    injection kind with kind
    subst kind
    refine ⟨sameBase, ?_⟩
    let only : Document := ⟨[], [], [st]⟩
    have alone : (([only].flatMap typesOf).map TypeModel.name).Nodup := by
      simp [only, typesOf, parsed]
    have declared : ∃ root ∈ [only], st ∈ root.simpleTypes :=
      ⟨only, List.mem_singleton.mpr rfl, List.mem_singleton.mpr rfl⟩
    have coded := (everywhere _ alone declared).1
    rw [valueCode_restriction (find_restriction restricts alone declared)] at coded
    injection coded with coded
    cases own : cxxPrimitiveMap.lookup name with
    | none => exact .inl rfl
    | some cxxType' =>
        rw [own] at coded
        exact .inr (congrArg some coded)
  · intro given
    rcases given with ⟨sameBase, own⟩
    refine ⟨_, base, parsed, rfl, sameBase, ?_⟩
    intro documents distinct declared
    have found := find_restriction restricts distinct declared
    have value : (cxxPrimitiveMap.lookup name).getD (restrictionCxxBaseType name base) =
        cxxType := by
      rcases own with own | own
      · rw [own]
        exact sameBase
      · rw [own]
        rfl
    refine ⟨?_, ?_⟩
    · rw [valueCode_restriction found, value]
    · intro generated
      rw [reference_restriction generated found, value]

end Restriction

/-- Along a chain the primitive is kept exactly where it is at hand. -/
theorem keepsPrimitive_iff {primitive : String} {st : SimpleType}
    (supported : primitive ∈ primitiveTypes) (chain : Derives primitive st) :
    KeepsPrimitive primitive st ↔ BaseAtHand primitive st := by
  rcases Option.isSome_iff_exists.mp ((mem_primitiveTypes_iff primitive).mp supported) with
    ⟨cxxType, known⟩
  rcases chain.restricts with ⟨name, base, restricts⟩
  unfold KeepsPrimitive BaseAtHand
  rw [known]
  constructor
  · intro given
    rcases given with ⟨cxxType', same, hasBase⟩
    cases same
    rcases (hasBase_iff restricts).mp hasBase with ⟨sameBase, own⟩
    refine ⟨name, base, restricts, own, ?_⟩
    simpa using (restrictionCxxBaseType_eq_iff own).mp sameBase
  · intro given
    rcases given with ⟨name', base', restricts', own, atHand⟩
    refine ⟨cxxType, rfl, (hasBase_iff restricts').mpr ⟨?_, own⟩⟩
    apply (restrictionCxxBaseType_eq_iff own).mpr
    simpa using atHand

section Samples

def speedSimple : SimpleType := ⟨some "SpeedType", some ⟨some "xs:double", []⟩⟩
def groundSpeedSimple : SimpleType := ⟨some "GroundSpeedType", some ⟨some "uci:SpeedType", []⟩⟩

def nameSimple : SimpleType := ⟨some "NameType", some ⟨some "xs:string", []⟩⟩
def shortNameSimple : SimpleType := ⟨some "ShortNameType", some ⟨some "uci:NameType", []⟩⟩

theorem speed_restricts : Restricts speedSimple "SpeedType" "double" :=
  ⟨rfl, by decide, _, rfl, by decide⟩

theorem groundSpeed_restricts : Restricts groundSpeedSimple "GroundSpeedType" "SpeedType" :=
  ⟨rfl, by decide, _, rfl, by decide⟩

theorem name_restricts : Restricts nameSimple "NameType" "string" :=
  ⟨rfl, by decide, _, rfl, by decide⟩

theorem shortName_restricts : Restricts shortNameSimple "ShortNameType" "NameType" :=
  ⟨rfl, by decide, _, rfl, by decide⟩

theorem shortName_keeps_string : KeepsPrimitive "string" shortNameSimple :=
  (keepsPrimitive_iff (by decide) (.next (.first name_restricts) name_restricts
    shortName_restricts)).mpr ⟨_, _, shortName_restricts, .inl (by decide),
      .inr (.inr ⟨by decide, by decide⟩)⟩

theorem groundSpeed_loses_double :
    Derives "double" groundSpeedSimple ∧ ¬ KeepsPrimitive "double" groundSpeedSimple := by
  refine ⟨.next (.first speed_restricts) speed_restricts groundSpeed_restricts, ?_⟩
  intro keeps
  rcases keeps with ⟨cxxType, known, hasBase⟩
  have double : cxxPrimitiveMap.lookup "double" = some .double := by decide
  have string : restrictionCxxBaseType "GroundSpeedType" "SpeedType" = .string := by decide
  have sameBase := ((hasBase_iff groundSpeed_restricts).mp hasBase).1
  rw [string] at sameBase
  rw [double, ← sameBase] at known
  cases known

end Samples

end Arcal.Compiler
