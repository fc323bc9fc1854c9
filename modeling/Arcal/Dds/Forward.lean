import Arcal.Cdr.Decoded
import Arcal.Dds.Dispatch
import Mathlib.Logic.Relation

/-! Samples that are passed on: a listener publishes the message it was handed. Whoever put the
first bytes on the topic, the bytes of the first hop are those of every later one. -/

namespace Arcal.Dds

open Schema Cdr

variable {schema : SchemaModel} {reg : CdrRegistry}

/-- A listener of the topic writes what it was handed. -/
def Hop (bridge : Option CdrRegistry) (T : MessageType schema) (s s' : TaggedSample) : Prop :=
  ∃ got, (((), got) : Unit × Accessor schema) ∈ (dispatchOne bridge T [()] s none).calls ∧
    DdsWriter.write bridge false got = .ok s'

variable (built : Built schema reg) (T : MessageType schema)
include built

theorem handed_encodable {L : Type} {listeners : List L} {callListener : Option L} {listener : L}
    {s : TaggedSample} {got : Accessor schema}
    (handed : (listener, got) ∈ (dispatchOne (some reg) T listeners s callListener).calls) :
    s.tag = T.tag ∧ ∃ obj off, got = T.accessor obj ∧ Elem.Encodable T.elem obj ∧
      Elem.deserializeAt s.data T.elem ⟨0, T.elem.fresh⟩ = .ok () ⟨off, obj⟩ := by
  obtain ⟨tag, data⟩ := s
  by_cases own : tag = T.tag
  · subst own
    refine ⟨rfl, ?_⟩
    cases run : Elem.deserializeAt data T.elem ⟨0, T.elem.fresh⟩ with
    | error e stop =>
        have decoded := cdrDeserialize_own built T data
        rw [run] at decoded
        have failed : dispatchOne (some reg) T listeners ⟨T.tag, data⟩ callListener =
            ⟨[], some e⟩ := by
          refine (if_neg (not_not.mpr rfl)).trans ?_
          simp only [decoded]
        rw [failed] at handed
        cases handed
    | ok u stop =>
        rw [dispatchOne_run built T run] at handed
        obtain ⟨_, _, same⟩ := List.mem_map.mp handed
        injection same with _ isGot
        exact ⟨stop.obj, stop.off, isGot.symm,
          Elem.decoded_encodable data T.elem T.elem.fresh_isFresh run, rfl⟩
  · have dropped : dispatchOne (some reg) T listeners ⟨tag, data⟩ callListener = ⟨[], none⟩ :=
      if_pos own
    rw [dropped] at handed
    cases handed

theorem encodable_handed {obj : T.elem.Impl} (encodable : Elem.Encodable T.elem obj) :
    ∃ got, T.elem.Agrees got obj ∧
      (∀ (L : Type) (listeners : List L) (callListener : Option L),
        dispatchOne (some reg) T listeners ⟨T.tag, Elem.serialize T.elem obj []⟩ callListener =
          ⟨(callListener.toList ++ listeners).map fun listener => (listener, T.accessor got),
            none⟩) ∧
      DdsWriter.write (some reg) false (T.accessor got) =
        .ok ⟨T.tag, Elem.serialize T.elem obj []⟩ := by
  obtain ⟨off, got, run, same⟩ := (Elem.encodable_iff T.elem obj).mp encodable
  refine ⟨got, same, fun L => dispatchOne_run built T run, ?_⟩
  calc
    _ = .ok ⟨T.tag, Elem.serialize T.elem got []⟩ := write_run built (T.accessor got)
    _ = _ := by rw [Elem.serialize_agrees T.elem same]

/-- A hop leaves a sample that the next hop leaves as it is. -/
theorem Hop.settles {s s' s'' : TaggedSample} (first : Hop (some reg) T s s')
    (second : Hop (some reg) T s' s'') : s'' = s' := by
  obtain ⟨handed, inside, written⟩ := first
  obtain ⟨_, obj, _, isObj, encodable, _⟩ := handed_encodable built T inside
  obtain ⟨got, _, delivered, again⟩ := encodable_handed built T encodable
  rw [isObj, write_run built (T.accessor obj)] at written
  have isSample : s' = ⟨T.tag, Elem.serialize T.elem obj []⟩ := (Except.ok.inj written).symm
  obtain ⟨next, inside, rewritten⟩ := second
  rw [isSample, delivered] at inside
  have isNext : next = T.accessor got := by simpa using inside
  rw [isNext, again, ← isSample] at rewritten
  exact (Except.ok.inj rewritten).symm

/-- Whatever sample a listener is handed as an object: if it writes the object, every listener
behind any number of further hops is handed an object that shows the same, out of the same
bytes. -/
theorem forwarded_settles {L : Type} {listeners : List L} {callListener : Option L}
    {listener : L} {s : TaggedSample} {handed : Accessor schema}
    (inside : (listener, handed) ∈ (dispatchOne (some reg) T listeners s callListener).calls) :
    ∃ s' obj, handed = T.accessor obj ∧ DdsWriter.write (some reg) false handed = .ok s' ∧
      ∀ last, Relation.ReflTransGen (Hop (some reg) T) s' last → last = s' ∧
        ∃ got, T.elem.Agrees got obj ∧
          ∀ (L : Type) (listeners : List L) (callListener : Option L),
            dispatchOne (some reg) T listeners last callListener =
              ⟨(callListener.toList ++ listeners).map fun listener => (listener, T.accessor got),
                none⟩ := by
  obtain ⟨own, obj, off, isObj, encodable, run⟩ := handed_encodable built T inside
  have written : DdsWriter.write (some reg) false handed =
      .ok ⟨T.tag, Elem.serialize T.elem obj []⟩ := by
    rw [isObj]
    exact write_run built (T.accessor obj)
  have first : Hop (some reg) T s ⟨T.tag, Elem.serialize T.elem obj []⟩ := by
    refine ⟨handed, ?_, written⟩
    have delivered := dispatchOne_run built T run [()] none
    rw [← own] at delivered
    rw [delivered, isObj]
    exact List.mem_singleton.mpr rfl
  refine ⟨_, obj, isObj, written, ?_⟩
  intro last hops
  have settled : last = ⟨T.tag, Elem.serialize T.elem obj []⟩ := by
    induction hops with
    | refl => rfl
    | tail _ hop ih =>
        rw [ih] at hop
        exact first.settles built T hop
  obtain ⟨got, same, delivered, _⟩ := encodable_handed built T encodable
  rw [settled]
  exact ⟨rfl, got, same, delivered⟩

omit built in
/-- A header with a byte behind it that no reader looks at, and no forwarder passes on. -/
theorem forwarded_settles_header : ∃ s' : TaggedSample,
    DdsWriter.write (some sampleRegistry) false (headerMessage.accessor unlabelledHeader) = .ok s' ∧
      ∀ last, Relation.ReflTransGen (Hop (some sampleRegistry) headerMessage) s' last →
        last = s' := by
  have run := Elem.deserializeAt_serialize headerLayout unlabelledHeader headerLayout.fresh []
    (Elem.serialize headerLayout unlabelledHeader [] ++ [9]) unlabelledHeader_inLimits
    (List.prefix_append _ _)
  have inside : (7, headerMessage.accessor unlabelledHeader) ∈
      (dispatchOne (some sampleRegistry) headerMessage [7]
        ⟨headerMessage.tag, Elem.serialize headerLayout unlabelledHeader [] ++ [9]⟩ none).calls := by
    rw [dispatchOne_run sampleSchema_built headerMessage run]
    exact List.mem_singleton.mpr rfl
  obtain ⟨s', obj, _, written, settled⟩ :=
    forwarded_settles sampleSchema_built headerMessage inside
  exact ⟨s', written, fun last hops => (settled last hops).1⟩

end Arcal.Dds
