import Arcal.Compiler.Handlers

/-! Two runs of the schema compiler over one schema: their programs share a bus, and each run
has checked its own tags only. -/

namespace Arcal.Compiler

open Schema
open Cdr (checkTags)

/-- The tag that `DdsWriter` puts on a sample and that `DdsReader::dispatchOne` expects. -/
def wireTag (m : TypeModel) : UInt32 := fnv1a32 m.name

/-- A reader of the second program that accepts a sample of the first is a reader for the type
the sample was written from. -/
def Unambiguous (first second : Output) : Prop :=
  ∀ written ∈ concreteTypes first.typeModels, ∀ read ∈ concreteTypes second.typeModels,
    wireTag written = wireTag read → written = read

def typesOfBoth (schema : SchemaModel) (first second : Output) : List TypeModel :=
  schema.types.filter fun m => m ∈ first.typeModels ∨ m ∈ second.typeModels

section Check

variable {schema : SchemaModel} {typeModels : List TypeModel}

theorem checkTags_iff [CaseTable] : checkTags [] ((cdrTypeEntries typeModels).map Prod.snd) = .ok
    () ↔
    ∀ left ∈ concreteTypes typeModels, ∀ right ∈ concreteTypes typeModels,
      wireTag left = wireTag right → left.name = right.name := by
  rw [Cdr.checkTags_eq_ok_iff]
  simp only [cdrTypeEntries, List.map_map, List.pairwise_map, Function.comp_apply]
  constructor
  · rintro ⟨_, apart⟩ left isLeft right isRight
    have symmetric : Std.Symm fun left right : TypeModel =>
        fnv1a32 left.name = fnv1a32 right.name → left.name = right.name :=
      ⟨fun _ _ both same => (both same.symm).symm⟩
    exact List.Pairwise.forall_of_forall (fun _ _ _ => rfl) apart isLeft isRight
  · intro apart
    refine ⟨fun _ _ _ found => (by cases found), ?_⟩
    exact List.pairwise_of_forall_mem_list fun left isLeft right isRight =>
      apart left isLeft right isRight

theorem renderCdrRegisterAll_ok_iff [CaseTable] :
    (∃ entries, renderCdrRegisterAll typeModels = .ok entries) ↔
      checkTags [] ((cdrTypeEntries typeModels).map Prod.snd) = .ok () := by
  unfold renderCdrRegisterAll
  cases checkTags [] ((cdrTypeEntries typeModels).map Prod.snd) with
  | error message => simp [bind, Except.bind]
  | ok u => simp [bind, Except.bind, pure, Except.pure]

theorem eq_of_name {left right : TypeModel} (isLeft : left ∈ schema.types)
    (isRight : right ∈ schema.types) (same : left.name = right.name) : left = right :=
  List.inj_on_of_nodup_map schema.nodupNames isLeft isRight same

end Check

section Runs

variable {schema : SchemaModel} {one other : SubsetConfig} {first second : Output}

theorem mem_typesOfBoth {m : TypeModel} :
    m ∈ concreteTypes (typesOfBoth schema first second) ↔
      m ∈ schema.types ∧ (m ∈ first.typeModels ∨ m ∈ second.typeModels) ∧
        m.isSimpleRestriction = false := by
  simp only [concreteTypes, typesOfBoth, List.mem_filter, decide_eq_true_eq, and_assoc,
    Bool.not_eq_true']

/-- The tags of two programs are unambiguous exactly when the check of a single run accepts
the types of both. -/
theorem unambiguous_iff [CaseTable] (oneRun : compile schema (some one) = .ok first)
    (otherRun : compile schema (some other) = .ok second) :
    Unambiguous first second ↔
      ∃ entries, renderCdrRegisterAll (typesOfBoth schema first second) = .ok entries := by
  rcases compile_ok oneRun with ⟨firstTypes, firstChecked, _⟩
  rcases compile_ok otherRun with ⟨secondTypes, secondChecked, _⟩
  have inFirst := (closed_selected firstTypes).sublist.subset
  have inSecond := (closed_selected secondTypes).sublist.subset
  have concrete : ∀ {typeModels : List TypeModel} {m : TypeModel}, m ∈ typeModels →
      m.isSimpleRestriction = false → m ∈ concreteTypes typeModels := by
    intro typeModels m member classy
    exact List.mem_filter.mpr ⟨member, by rw [classy]; rfl⟩
  rw [renderCdrRegisterAll_ok_iff, checkTags_iff]
  constructor
  · intro unambiguous left isLeft right isRight same
    rcases mem_typesOfBoth.mp isLeft with ⟨_, leftSide, leftClassy⟩
    rcases mem_typesOfBoth.mp isRight with ⟨_, rightSide, rightClassy⟩
    rcases leftSide with leftFirst | leftSecond
    · rcases rightSide with rightFirst | rightSecond
      · exact checkTags_iff.mp firstChecked left (concrete leftFirst leftClassy) right
          (concrete rightFirst rightClassy) same
      · exact congrArg TypeModel.name (unambiguous left (concrete leftFirst leftClassy) right
          (concrete rightSecond rightClassy) same)
    · rcases rightSide with rightFirst | rightSecond
      · exact congrArg TypeModel.name (unambiguous right (concrete rightFirst rightClassy) left
          (concrete leftSecond leftClassy) same.symm).symm
      · exact checkTags_iff.mp secondChecked left (concrete leftSecond leftClassy) right
          (concrete rightSecond rightClassy) same
  · intro apart written isWritten read isRead same
    rcases mem_of_concrete isWritten with ⟨memberWritten, classyWritten⟩
    rcases mem_of_concrete isRead with ⟨memberRead, classyRead⟩
    apply eq_of_name (inFirst memberWritten) (inSecond memberRead)
    apply apart written _ read _ same
    · exact mem_typesOfBoth.mpr ⟨inFirst memberWritten, Or.inl memberWritten, classyWritten⟩
    · exact mem_typesOfBoth.mpr ⟨inSecond memberRead, Or.inr memberRead, classyRead⟩

/-- A schema that compiles as a whole has unambiguous programs only. -/
theorem unambiguous_of_schema [CaseTable] {whole : Output}
    (wholeRun : compile schema none = .ok whole) (oneRun : compile schema (some one) = .ok first)
    (otherRun : compile schema (some other) = .ok second) : Unambiguous first second := by
  rcases compile_ok wholeRun with ⟨all, checked, _⟩
  rcases compile_ok oneRun with ⟨firstTypes, _⟩
  rcases compile_ok otherRun with ⟨secondTypes, _⟩
  injection all with both
  injection both with _ types
  rw [← types] at checked
  intro written isWritten read isRead same
  rcases mem_of_concrete isWritten with ⟨memberWritten, classyWritten⟩
  rcases mem_of_concrete isRead with ⟨memberRead, classyRead⟩
  have declared := (closed_selected firstTypes).sublist.subset memberWritten
  have declared' := (closed_selected secondTypes).sublist.subset memberRead
  apply eq_of_name declared declared'
  apply checkTags_iff.mp checked written _ read _ same
  · exact List.mem_filter.mpr ⟨declared, by rw [classyWritten]; rfl⟩
  · exact List.mem_filter.mpr ⟨declared', by rw [classyRead]; rfl⟩

end Runs

section Samples

attribute [local instance] latinCase

def signalNetLine : TypeModel := ⟨"SignalNetLineMT", .complex [⟨"Count", "int", 1, 1⟩] [] none⟩

def logTimeZone : TypeModel := ⟨"LogTimeZoneMT", .complex [⟨"Offset", "float", 1, 1⟩] [] none⟩

def collidingSchema : SchemaModel where
  types := [signalNetLine, logTimeZone]
  globalElements := [⟨"SignalNetLine", "SignalNetLineMT"⟩, ⟨"LogTimeZone", "LogTimeZoneMT"⟩]
  nodupNames := by decide

/-- A run that selects both messages is refused, two runs that select one each are not. -/
theorem tag_shared :
    (compile collidingSchema (some ⟨["SignalNetLine", "LogTimeZone"], []⟩)).toOption = none ∧
      ∃ first second, compile collidingSchema (some ⟨["SignalNetLine"], []⟩) = .ok first ∧
        compile collidingSchema (some ⟨["LogTimeZone"], []⟩) = .ok second ∧
        ¬ Unambiguous first second := by
  refine ⟨by decide +kernel, ?_⟩
  have oneRun : ∃ first, compile collidingSchema (some ⟨["SignalNetLine"], []⟩) = .ok first ∧
      first.typeModels = [signalNetLine] := compile_of_typeModels (by decide +kernel)
  have otherRun : ∃ second, compile collidingSchema (some ⟨["LogTimeZone"], []⟩) = .ok second ∧
      second.typeModels = [logTimeZone] := compile_of_typeModels (by decide +kernel)
  rcases oneRun with ⟨first, compiledFirst, firstTypes⟩
  rcases otherRun with ⟨second, compiledSecond, secondTypes⟩
  refine ⟨first, second, compiledFirst, compiledSecond, ?_⟩
  intro unambiguous
  rw [Unambiguous, firstTypes, secondTypes] at unambiguous
  have same := unambiguous signalNetLine (by decide) logTimeZone (by decide) (by decide +kernel)
  revert same
  decide

/-- The sample schema's messages can go to two programs. -/
theorem unambiguous_iff_track : ∃ first second,
    compile sampleSchema (some trackConfig) = .ok first ∧
      compile sampleSchema (some ⟨["Header"], []⟩) = .ok second ∧ Unambiguous first second := by
  have oneRun : ∃ first, compile sampleSchema (some trackConfig) = .ok first ∧
      first.typeModels = sampleSchema.types := compile_of_typeModels (by decide +kernel)
  have otherRun : ∃ second, compile sampleSchema (some ⟨["Header"], []⟩) = .ok second ∧
      second.typeModels = [sampleSchema.types[1], sampleSchema.types[2]] :=
    compile_of_typeModels (by decide +kernel)
  rcases oneRun with ⟨first, compiledFirst, firstTypes⟩
  rcases otherRun with ⟨second, compiledSecond, secondTypes⟩
  refine ⟨first, second, compiledFirst, compiledSecond, ?_⟩
  apply (unambiguous_iff compiledFirst compiledSecond).mpr
  rw [renderCdrRegisterAll_ok_iff, typesOfBoth, firstTypes, secondTypes]
  decide +kernel

end Samples

end Arcal.Compiler
