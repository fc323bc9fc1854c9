import Arcal.Compiler.Parser

/-! The elements a content model declares, against the fields and variants that are kept of it:
the scan looks at one level, and gives a reference the type its own name suggests. -/

namespace Arcal.Compiler

open Schema

def members (m : TypeModel) : List FieldModel :=
  match m.kind with
  | .complex fields choices _ => fields ++ choices.flatMap ChoiceModel.variants
  | _ => []

/-- The name and the type a declaration has in the documents: its own, or those of the global
element it refers to. -/
inductive Declares (documents : List Document) (elem : ElementDecl) : String → String → Prop
  | typed {name type : String} : elem.name = some name → elem.type = some type →
      Declares documents elem name (localName type)
  | byRef {ref type : String} {root : Document} {target : ElementDecl} : elem.name = none →
      elem.type = none → elem.ref = some ref → root ∈ documents → target ∈ root.elements →
      target.name = some (localName ref) → target.type = some type →
      Declares documents elem (localName ref) (localName type)

/-- What the scan takes a declaration for: a reference is of the type it is named like. -/
def ReadAs (elem : ElementDecl) (name type : String) : Prop :=
  name = elementName elem ∧ name ≠ "" ∧
    ((∃ written, elem.type = some written ∧ type = localName written) ∨
      elem.type = none ∧ elem.ref ≠ none ∧ type = localName name)

/-- Each element the content model declares has a field or a variant of its name and type. -/
def KeepsElements (documents : List Document) (ct : ComplexType) : Prop :=
  ∃ m, parseComplexType ct = some m ∧ ∀ elem ∈ ct.declared, ∀ name type,
    Declares documents elem name type →
      ∃ member ∈ members m, member.name = name ∧ member.typeName = type

/-- Each declared element has the name and type that the scan reads off some outermost one. -/
def Surfaces (documents : List Document) (ct : ComplexType) : Prop :=
  ∀ elem ∈ ct.declared, ∀ name type, Declares documents elem name type →
    ∃ outer ∈ ct.outermost, ReadAs outer name type

theorem readAs_iff {elem : ElementDecl} {name type : String} : ReadAs elem name type ↔
    ∃ field, elementToField elem = some field ∧ field.name = name ∧ field.typeName = type := by
  unfold elementToField ReadAs
  by_cases unnamed : elementName elem = ""
  · rw [if_pos unnamed]
    constructor
    · intro given
      exact absurd (given.1.trans unnamed) given.2.1
    · intro given
      rcases given with ⟨_, impossible, _⟩
      cases impossible
  · rw [if_neg unnamed]
    cases written : elem.type with
    | some type' =>
        rw [if_neg (by simp)]
        constructor
        · intro given
          rcases given with ⟨named, _, ⟨type'', same, typed⟩ | ⟨absent, _⟩⟩
          · cases same
            exact ⟨_, rfl, named.symm, typed.symm⟩
          · cases absent
        · intro given
          rcases given with ⟨_, ⟨⟩, rfl, rfl⟩
          exact ⟨rfl, unnamed, .inl ⟨type', rfl, rfl⟩⟩
    | none =>
        by_cases refers : elem.ref = none
        · rw [if_pos ⟨rfl, refers⟩]
          constructor
          · intro given
            rcases given with ⟨_, _, ⟨_, impossible, _⟩ | ⟨_, present, _⟩⟩
            · cases impossible
            · exact absurd refers present
          · intro given
            rcases given with ⟨_, impossible, _⟩
            cases impossible
        · rw [if_neg (fun both => refers both.2)]
          constructor
          · intro given
            rcases given with ⟨named, _, ⟨_, impossible, _⟩ | ⟨_, _, typed⟩⟩
            · cases impossible
            · exact ⟨_, rfl, named.symm, by rw [typed, named]; rfl⟩
          · intro given
            rcases given with ⟨_, ⟨⟩, rfl, rfl⟩
            exact ⟨rfl, unnamed, .inr ⟨rfl, refers, rfl⟩⟩

theorem mem_scanned {children : List Particle} {field : FieldModel} :
    field ∈ (elementsOf children).filterMap elementToField ↔
      ∃ outer ∈ elementsOf children, elementToField outer = some field := List.mem_filterMap

theorem mem_members {ct : ComplexType} {m : TypeModel} (parsed : parseComplexType ct = some m)
    (field : FieldModel) :
    field ∈ members m ↔ ∃ outer ∈ ct.outermost, elementToField outer = some field := by
  unfold parseComplexType at parsed
  split at parsed
  · cases parsed
  · injection parsed with same
    subst same
    simp only [members, ComplexType.outermost, ComplexType.groups, List.mem_append,
      List.mem_flatMap, List.mem_map, List.mem_singleton, parseSequence, mem_scanned]
    constructor
    · intro kept
      rcases kept with (⟨ext, inside, seq, found, outer, stands, made⟩ |
        ⟨seq, found, outer, stands, made⟩) | ⟨_, ⟨ext, inside, choice, found, rfl⟩ |
        ⟨choice, found, rfl⟩, isVariant⟩
      · exact ⟨outer, ⟨seq, ⟨_, .inl ⟨ext, inside, rfl⟩, .inl found⟩, stands⟩, made⟩
      · exact ⟨outer, ⟨seq, ⟨_, .inr rfl, .inl found⟩, stands⟩, made⟩
      · rcases mem_scanned.mp isVariant with ⟨outer, stands, made⟩
        exact ⟨outer, ⟨choice, ⟨_, .inl ⟨ext, inside, rfl⟩, .inr found⟩, stands⟩, made⟩
      · rcases mem_scanned.mp isVariant with ⟨outer, stands, made⟩
        exact ⟨outer, ⟨choice, ⟨_, .inr rfl, .inr found⟩, stands⟩, made⟩
    · intro given
      rcases given with ⟨outer, ⟨group, ⟨_, ⟨ext, inside, rfl⟩ | rfl, found | found⟩, stands⟩,
        made⟩
      · exact .inl (.inl ⟨ext, inside, group, found, outer, stands, made⟩)
      · exact .inr ⟨_, .inl ⟨ext, inside, group, found, rfl⟩, mem_scanned.mpr ⟨outer, stands, made⟩⟩
      · exact .inl (.inr ⟨group, found, outer, stands, made⟩)
      · exact .inr ⟨_, .inr ⟨group, found, rfl⟩, mem_scanned.mpr ⟨outer, stands, made⟩⟩

theorem parseComplexType_isSome {ct : ComplexType} {name : String} (named : ct.name = some name)
    (nonempty : name ≠ "") : ∃ m, parseComplexType ct = some m := by
  have given : ct.name.filter (· ≠ "") = some name := by simp [named, nonempty]
  unfold parseComplexType
  rw [given]
  exact ⟨_, rfl⟩

/-- The elements are kept exactly when each one surfaces. -/
theorem keepsElements_iff (documents : List Document) {ct : ComplexType} {name : String}
    (named : ct.name = some name) (nonempty : name ≠ "") :
    KeepsElements documents ct ↔ Surfaces documents ct := by
  rcases parseComplexType_isSome named nonempty with ⟨m, parsed⟩
  have read : ∀ name type, (∃ member ∈ members m, member.name = name ∧ member.typeName = type) ↔
      ∃ outer ∈ ct.outermost, ReadAs outer name type := by
    intro name type
    constructor
    · intro given
      rcases given with ⟨member, inside, named, typed⟩
      rcases (mem_members parsed member).mp inside with ⟨outer, stands, made⟩
      exact ⟨outer, stands, readAs_iff.mpr ⟨member, made, named, typed⟩⟩
    · intro given
      rcases given with ⟨outer, stands, reads⟩
      rcases readAs_iff.mp reads with ⟨member, made, named, typed⟩
      exact ⟨member, (mem_members parsed member).mpr ⟨outer, stands, made⟩, named, typed⟩
  constructor
  · intro keeps elem inside name type declares
    rcases keeps with ⟨m', parsed', kept⟩
    cases parsed.symm.trans parsed'
    exact (read name type).mp (kept elem inside name type declares)
  · intro surfaces
    refine ⟨m, parsed, ?_⟩
    intro elem inside name type declares
    exact (read name type).mpr (surfaces elem inside name type declares)

section Samples

def speedElement : ElementDecl := ⟨some "Speed", none, some "xs:double", none, none⟩

def nestedType : ComplexType :=
  ⟨some "CommandType", [], [], [.sequence [.choice [.element speedElement]]]⟩

def flatType : ComplexType :=
  ⟨some "CommandType", [], [], [.sequence [.element speedElement]]⟩

theorem flatType_keeps : KeepsElements [] flatType := by
  have named : flatType.name = some "CommandType" := rfl
  apply (keepsElements_iff [] named (by decide)).mpr
  intro elem inside name type declares
  have same : elem = speedElement := List.mem_singleton.mp inside
  subst same
  cases declares with
  | typed named typed =>
      cases named
      cases typed
      exact ⟨speedElement, List.mem_singleton.mpr rfl, rfl, by decide, .inl ⟨_, rfl, rfl⟩⟩
  | byRef unnamed _ _ _ _ _ _ => cases unnamed

theorem nested_element_dropped : ¬ KeepsElements [] nestedType := by
  intro keeps
  rcases keeps with ⟨m, parsed, kept⟩
  have empty : parseComplexType nestedType = some ⟨"CommandType", .complex [] [] none⟩ := by decide
  cases empty.symm.trans parsed
  have declares : Declares [] speedElement "Speed" (localName "xs:double") := .typed rfl rfl
  rcases kept speedElement (List.mem_singleton.mpr rfl) _ _ declares with ⟨_, impossible, _⟩
  cases impossible

end Samples

end Arcal.Compiler
