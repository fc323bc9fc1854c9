import Arcal.Cdr.Externalizer
import Arcal.Cdr.Truncation

/-! What a typed writer publishes and what a typed reader does with a batch of samples:
`DdsWriter::write`, `DdsReader::dispatchOne` and the loops around it, with the way an
exception leaves them. -/

namespace Arcal.Dds

open Schema Cdr

/-- A message type: the class of a global element, so it has reader and writer factories. -/
structure MessageType (schema : SchemaModel) where
  typeName : String
  elem : Elem
  laidOut : layout schema typeName = some elem
  global : ∃ element ∈ schema.globalElements, element.typeName = typeName

structure TaggedSample where
  tag : UInt32
  data : Bytes
  deriving DecidableEq, Repr

variable {schema : SchemaModel}

namespace MessageType

def accessor (T : MessageType schema) (obj : T.elem.Impl) : Accessor schema :=
  ⟨T.typeName, T.elem, T.laidOut, obj⟩

def create (T : MessageType schema) : Accessor schema := T.accessor T.elem.fresh

def tag (T : MessageType schema) : UInt32 := fnv1a32 T.typeName

end MessageType

def bridgeMissing : Exc := .uciException (utf8 "CDR bridge not registered")

/-- `cdrSerialize`; the bridge is there once the handlers are registered. -/
def cdrSerialize (bridge : Option CdrRegistry) (obj : Accessor schema) (out : Bytes) :
    Except Exc Bytes :=
  match bridge with
  | none => .error bridgeMissing
  | some reg => do
      let handler ← reg.lookupByTag obj.getAccessorType
      serialize handler obj out

def cdrTypeTag (obj : Accessor schema) : UInt32 := obj.getAccessorType

def cdrDeserialize (bridge : Option CdrRegistry) (tag : UInt32) (input : Bytes)
    (obj : Accessor schema) : Except Exc Unit × Accessor schema :=
  match bridge with
  | none => (.error bridgeMissing, obj)
  | some reg =>
    match reg.lookupByTag tag with
    | .error e => (.error e, obj)
    | .ok handler => deserializeAt handler input 0 obj

/-- `DdsWriter::write`: the sample that is published. -/
def DdsWriter.write (bridge : Option CdrRegistry) (closed : Bool) (obj : Accessor schema) :
    Except Exc TaggedSample :=
  if closed then .error (.uciException (utf8 "DdsWriter: write on closed writer"))
  else do
    let bytes ← cdrSerialize bridge obj []
    return ⟨cdrTypeTag obj, bytes⟩

/-- The `handleMessage` calls made, in order, and the exception that ended them, if any. -/
structure Delivery (L M : Type) where
  calls : List (L × M)
  thrown : Option Exc

variable {L : Type}

/-- `dispatchOne`: the caller's listener first, then a snapshot of the registered ones. A
`handleMessage` is taken to return; only the decoding throws here. -/
def dispatchOne (bridge : Option CdrRegistry) (T : MessageType schema) (listeners : List L)
    (s : TaggedSample) (callListener : Option L) : Delivery L (Accessor schema) :=
  let msg := T.create
  let expected := cdrTypeTag msg
  if s.tag ≠ expected then ⟨[], none⟩
  else
    match cdrDeserialize bridge s.tag s.data msg with
    | (.error e, _) => ⟨[], some e⟩
    | (.ok _, filled) =>
        ⟨(callListener.toList ++ listeners).map fun listener => (listener, filled), none⟩

/-- `for (auto& s : samples) dispatchOne(s, callListener)`: a throw skips the rest. -/
def dispatchAll (bridge : Option CdrRegistry) (T : MessageType schema) (listeners : List L)
    (callListener : Option L) : List TaggedSample → Delivery L (Accessor schema)
  | [] => ⟨[], none⟩
  | s :: rest =>
      let here := dispatchOne bridge T listeners s callListener
      match here.thrown with
      | some _ => here
      | none =>
          let later := dispatchAll bridge T listeners callListener rest
          ⟨here.calls ++ later.calls, later.thrown⟩

/-- The body `read` and `readNoWait` share, on the samples they took. -/
def poll (name : String) (bridge : Option CdrRegistry) (T : MessageType schema) (closed : Bool)
    (listeners : List L) (raw : List TaggedSample) (listener : L) :
    Delivery L (Accessor schema) × Except Exc Nat :=
  if closed then
    let e := .uciException (utf8 "DdsReader: " ++ utf8 name ++ utf8 " on closed reader")
    (⟨[], some e⟩, .error e)
  else
    let delivery := dispatchAll bridge T listeners (some listener) raw
    match delivery.thrown with
    | some e => (delivery, .error e)
    | none => (delivery, .ok raw.length)

def read (bridge : Option CdrRegistry) (T : MessageType schema) (closed : Bool)
    (listeners : List L) (raw : List TaggedSample) (listener : L) :
    Delivery L (Accessor schema) × Except Exc Nat :=
  poll "read" bridge T closed listeners raw listener

def readNoWait (bridge : Option CdrRegistry) (T : MessageType schema) (closed : Bool)
    (listeners : List L) (raw : List TaggedSample) (listener : L) :
    Delivery L (Accessor schema) × Except Exc Nat :=
  poll "readNoWait" bridge T closed listeners raw listener

def onBackgroundSamples (bridge : Option CdrRegistry) (T : MessageType schema)
    (listeners : List L) (samples : List TaggedSample) : Delivery L (Accessor schema) :=
  dispatchAll bridge T listeners none samples

/-- An exception that leaves the thread function ends the process with `std::terminate`. -/
def loopContinues {M : Type} (delivery : Delivery L M) : Bool := delivery.thrown.isNone

/-- Right tag, but the decoder throws. -/
def Undecodable (bridge : Option CdrRegistry) (T : MessageType schema) (s : TaggedSample) :
    Prop :=
  s.tag = T.tag ∧ ∃ e, (cdrDeserialize bridge s.tag s.data T.create).1 = .error e

/-- Right tag, and the decoder returns. -/
def Good (bridge : Option CdrRegistry) (T : MessageType schema) (s : TaggedSample) : Prop :=
  s.tag = T.tag ∧ (cdrDeserialize bridge s.tag s.data T.create).1 = .ok ()

/-- The calls that deliver every good sample of a batch to every recipient, in batch order. -/
def allDelivered (bridge : Option CdrRegistry) (T : MessageType schema) (recipients : List L)
    (batch : List TaggedSample) : List (L × Accessor schema) :=
  batch.flatMap fun s =>
    if s.tag = T.tag then
      match cdrDeserialize bridge s.tag s.data T.create with
      | (.ok _, msg) => recipients.map fun listener => (listener, msg)
      | (.error _, _) => []
    else []

section Batches

variable (bridge : Option CdrRegistry) (T : MessageType schema) (listeners : List L)
  (callListener : Option L)

theorem dispatchOne_cases (s : TaggedSample) :
    (s.tag ≠ T.tag ∧ dispatchOne bridge T listeners s callListener = ⟨[], none⟩) ∨
      (∃ e, Undecodable bridge T s ∧
        dispatchOne bridge T listeners s callListener = ⟨[], some e⟩) ∨
      (Good bridge T s ∧ dispatchOne bridge T listeners s callListener =
        ⟨allDelivered bridge T (callListener.toList ++ listeners) [s], none⟩) := by
  by_cases right : s.tag = T.tag
  · have decoded : dispatchOne bridge T listeners s callListener =
        match cdrDeserialize bridge s.tag s.data T.create with
        | (.error e, _) => ⟨[], some e⟩
        | (.ok _, filled) =>
            ⟨(callListener.toList ++ listeners).map fun listener => (listener, filled), none⟩ :=
      if_neg (not_not.mpr right)
    cases run : cdrDeserialize bridge s.tag s.data T.create with
    | mk result filled =>
        cases result with
        | error e =>
            refine .inr (.inl ⟨e, ⟨right, e, by rw [run]⟩, ?_⟩)
            rw [decoded, run]
        | ok u =>
            refine .inr (.inr ⟨⟨right, by rw [run]⟩, ?_⟩)
            rw [decoded, run]
            rw [right] at run
            simp [allDelivered, right, run]
  · exact .inl ⟨right, if_pos right⟩

theorem allDelivered_cons (recipients : List L) (s : TaggedSample) (rest : List TaggedSample) :
    allDelivered bridge T recipients (s :: rest) =
      allDelivered bridge T recipients [s] ++ allDelivered bridge T recipients rest := by
  simp [allDelivered]

theorem allDelivered_eq_nil_iff (recipients : List L) (some' : recipients ≠ [])
    (batch : List TaggedSample) :
    allDelivered bridge T recipients batch = [] ↔ ∀ s ∈ batch, ¬ Good bridge T s := by
  unfold allDelivered
  rw [List.flatMap_eq_nil_iff]
  apply forall₂_congr
  intro s _
  by_cases right : s.tag = T.tag
  · cases run : cdrDeserialize bridge s.tag s.data T.create with
    | mk result filled =>
        rw [right] at run
        cases result with
        | ok u => simp [Good, right, run, some']
        | error e => simp [Good, right, run]
  · simp [Good, right]

theorem not_undecodable_of_tag {s : TaggedSample} (wrong : s.tag ≠ T.tag) :
    ¬ Undecodable bridge T s := fun bad => wrong bad.1

theorem not_undecodable_of_good {s : TaggedSample} (good : Good bridge T s) :
    ¬ Undecodable bridge T s := by
  intro bad
  rcases bad with ⟨_, e, thrown⟩
  rw [good.2] at thrown
  cases thrown

/-- A batch gets through whole unless an undecodable sample stands before a good one. -/
theorem dispatchAll_calls_iff (some' : callListener.toList ++ listeners ≠ [])
    (batch : List TaggedSample) :
    (dispatchAll bridge T listeners callListener batch).calls =
        allDelivered bridge T (callListener.toList ++ listeners) batch ↔
      batch.Pairwise fun earlier later =>
        ¬ (Undecodable bridge T earlier ∧ Good bridge T later) := by
  induction batch with
  | nil => simp [dispatchAll, allDelivered]
  | cons s rest ih =>
      rw [List.pairwise_cons, allDelivered_cons]
      rcases dispatchOne_cases bridge T listeners callListener s with
        ⟨wrong, one⟩ | ⟨e, bad, one⟩ | ⟨good, one⟩
      · have free := not_undecodable_of_tag bridge T wrong
        have nothing : allDelivered bridge T (callListener.toList ++ listeners) [s] = [] := by
          simp [allDelivered, wrong]
        simp [dispatchAll, one, nothing, ih, free]
      · have nothing : allDelivered bridge T (callListener.toList ++ listeners) [s] = [] := by
          rw [allDelivered_eq_nil_iff bridge T _ some']
          intro other member good
          rw [List.mem_singleton.mp member] at good
          exact not_undecodable_of_good bridge T good bad
        have empty := allDelivered_eq_nil_iff bridge T _ some' rest
        simp only [dispatchAll, one, nothing, List.nil_append]
        rw [eq_comm, empty]
        constructor
        · intro none'
          refine ⟨fun later member both => none' later member both.2, ?_⟩
          apply List.pairwise_of_forall_mem_list
          intro earlier _ later member both
          exact none' later member both.2
        · intro apart later member good
          exact apart.1 later member ⟨bad, good⟩
      · have free := not_undecodable_of_good bridge T good
        simp [dispatchAll, one, ih, free]

theorem dispatchAll_thrown_iff (batch : List TaggedSample) :
    (dispatchAll bridge T listeners callListener batch).thrown = none ↔
      ∀ s ∈ batch, ¬ Undecodable bridge T s := by
  induction batch with
  | nil => simp [dispatchAll]
  | cons s rest ih =>
      rw [List.forall_mem_cons, ← ih]
      rcases dispatchOne_cases bridge T listeners callListener s with
        ⟨wrong, one⟩ | ⟨e, bad, one⟩ | ⟨good, one⟩
      · simp [dispatchAll, one, not_undecodable_of_tag bridge T wrong]
      · simp [dispatchAll, one, bad]
      · simp [dispatchAll, one, not_undecodable_of_good bridge T good]

theorem dispatchAll_calls_of_decodable (batch : List TaggedSample)
    (decodable : ∀ s ∈ batch, ¬ Undecodable bridge T s) :
    (dispatchAll bridge T listeners callListener batch).calls =
      allDelivered bridge T (callListener.toList ++ listeners) batch := by
  induction batch with
  | nil => rfl
  | cons s rest ih =>
      have later := ih fun other member => decodable other (List.mem_cons_of_mem _ member)
      rw [allDelivered_cons, ← later]
      rcases dispatchOne_cases bridge T listeners callListener s with
        ⟨wrong, one⟩ | ⟨e, bad, one⟩ | ⟨good, one⟩
      · simp [dispatchAll, one, allDelivered, wrong]
      · exact absurd bad (decodable s (by simp))
      · simp [dispatchAll, one]

theorem poll_calls (name : String) (listener : L) (batch : List TaggedSample) :
    (poll name bridge T false listeners batch listener).1.calls =
      (dispatchAll bridge T listeners (some listener) batch).calls := by
  simp only [poll, Bool.false_eq_true, if_false]
  split <;> rfl

end Batches

/-- When a batch reaches everybody. A poll delivers every good sample, in order, unless an
undecodable one stands before a good one; a background batch does so and leaves the loop
running exactly when it has no undecodable sample. -/
theorem batch_delivered_iff (bridge : Option CdrRegistry) (T : MessageType schema)
    (listeners : List L) (batch : List TaggedSample) :
    (∀ listener : L,
      ((read bridge T false listeners batch listener).1.calls =
          allDelivered bridge T (listener :: listeners) batch ↔
        batch.Pairwise fun earlier later =>
          ¬ (Undecodable bridge T earlier ∧ Good bridge T later)) ∧
      ((readNoWait bridge T false listeners batch listener).1.calls =
          allDelivered bridge T (listener :: listeners) batch ↔
        batch.Pairwise fun earlier later =>
          ¬ (Undecodable bridge T earlier ∧ Good bridge T later))) ∧
    ((onBackgroundSamples bridge T listeners batch).calls =
          allDelivered bridge T listeners batch ∧
        loopContinues (onBackgroundSamples bridge T listeners batch) = true ↔
      ∀ s ∈ batch, ¬ Undecodable bridge T s) := by
  refine ⟨fun listener => ⟨?_, ?_⟩, ?_⟩
  · rw [read, poll_calls]
    exact dispatchAll_calls_iff bridge T listeners (some listener) (by simp) batch
  · rw [readNoWait, poll_calls]
    exact dispatchAll_calls_iff bridge T listeners (some listener) (by simp) batch
  · have thrown := dispatchAll_thrown_iff bridge T listeners none batch
    simp only [onBackgroundSamples, loopContinues, Option.isNone_iff_eq_none]
    rw [thrown]
    constructor
    · intro both
      exact both.2
    · intro decodable
      exact ⟨dispatchAll_calls_of_decodable bridge T listeners none batch decodable, decodable⟩

section TypedWriter

variable {reg : CdrRegistry} (built : Built schema reg) (T : MessageType schema)
include built

theorem lookupByTag_own (v : Accessor schema) :
    reg.lookupByTag v.getAccessorType = .ok v.typeName := by
  rcases find_of_layout v.laidOut with ⟨m, found, classy⟩
  exact built.lookupByTag found classy

theorem write_run (v : Accessor schema) :
    DdsWriter.write (some reg) false v =
      .ok ⟨fnv1a32 v.typeName, Elem.serialize v.elem v.obj []⟩ := by
  simp only [DdsWriter.write, cdrSerialize, lookupByTag_own built v, bind, Except.bind,
    serialize_self, Bool.false_eq_true, if_false]
  rfl

/-- Samples of another class never get past the tag check, derived classes included. -/
theorem dispatchOne_other_class (v : Accessor schema) (other : v.typeName ≠ T.typeName)
    (data : Bytes) (listeners : List L) (callListener : Option L) :
    dispatchOne (some reg) T listeners ⟨fnv1a32 v.typeName, data⟩ callListener = ⟨[], none⟩ := by
  apply if_pos
  intro same
  rcases find_of_layout v.laidOut with ⟨m, found, classy⟩
  rcases find_of_layout T.laidOut with ⟨m', found', classy'⟩
  exact other (built.tag_injective found found' classy classy' same)

theorem cdrDeserialize_own (data : Bytes) :
    cdrDeserialize (some reg) T.tag data T.create =
      match Elem.deserializeAt data T.elem ⟨0, T.elem.fresh⟩ with
      | .ok _ stop => (.ok (), T.accessor stop.obj)
      | .error e stop => (.error e, T.accessor stop.obj) := by
  have known := lookupByTag_own built T.create
  have own := deserializeAt_self T.create data 0
  simp only [cdrDeserialize]
  rw [show reg.lookupByTag T.tag = .ok T.typeName from known]
  cases run : Elem.deserializeAt data T.elem ⟨0, T.elem.fresh⟩ with
  | ok u stop =>
      have again : Elem.deserializeAt data T.create.elem ⟨0, T.create.obj⟩ = .ok u stop := run
      rw [again] at own
      exact own
  | error e stop =>
      have again : Elem.deserializeAt data T.create.elem ⟨0, T.create.obj⟩ = .error e stop := run
      rw [again] at own
      exact own

theorem dispatchOne_run {data : Bytes} {off : Nat} {got : T.elem.Impl}
    (run : Elem.deserializeAt data T.elem ⟨0, T.elem.fresh⟩ = .ok () ⟨off, got⟩)
    (listeners : List L) (callListener : Option L) :
    dispatchOne (some reg) T listeners ⟨T.tag, data⟩ callListener =
      ⟨(callListener.toList ++ listeners).map fun listener => (listener, T.accessor got),
        none⟩ := by
  have decoded := cdrDeserialize_own built T data
  rw [run] at decoded
  refine (if_neg (not_not.mpr rfl)).trans ?_
  simp only [decoded]

theorem decoded_of_dispatchOne {data : Bytes} {got : T.elem.Impl}
    (called : dispatchOne (some reg) T [()] ⟨T.tag, data⟩ none = ⟨[((), T.accessor got)], none⟩) :
    ∃ off, Elem.deserializeAt data T.elem ⟨0, T.elem.fresh⟩ = .ok () ⟨off, got⟩ := by
  have decoded := cdrDeserialize_own built T data
  replace called := (if_neg (not_not.mpr rfl)).symm.trans called
  cases run : Elem.deserializeAt data T.elem ⟨0, T.elem.fresh⟩ with
  | error e stop =>
      rw [run] at decoded
      simp [decoded] at called
  | ok u stop =>
      rw [run] at decoded
      simp only [decoded] at called
      injection called with calls
      injection calls with call
      injection call with _ message
      injection message with _ _ same
      exact ⟨stop.off, by rw [← same]⟩

theorem cdrDeserialize_result (data : Bytes) :
    (cdrDeserialize (some reg) T.tag data T.create).1 =
      (Elem.deserialize data T.elem T.elem.fresh).1 := by
  rw [cdrDeserialize_own built T data, Elem.deserialize]
  cases Elem.deserializeAt data T.elem ⟨0, T.elem.fresh⟩ with
  | ok u stop => rfl
  | error e stop => rfl

theorem written_good (v : T.elem.Impl) (limits : Elem.InLimits T.elem v) :
    Good (some reg) T ⟨T.tag, Elem.serialize T.elem v []⟩ := by
  refine ⟨rfl, ?_⟩
  have run := Elem.deserializeAt_serialize T.elem v T.elem.fresh [] _ limits (List.prefix_refl _)
  rw [List.length_nil] at run
  rw [cdrDeserialize_result built T, Elem.deserialize, run]

theorem cut_undecodable (v : T.elem.Impl) (limits : Elem.InLimits T.elem v) {data : Bytes}
    (inside : data <+: Elem.serialize T.elem v []) (cut : data ≠ Elem.serialize T.elem v []) :
    Undecodable (some reg) T ⟨T.tag, data⟩ := by
  refine ⟨rfl, ?_⟩
  rw [cdrDeserialize_result built T]
  exact Elem.deserialize_truncated T.elem v T.elem.fresh data limits inside cut

end TypedWriter

/-- What a writer accepts and where it arrives. An object of any other class than the
message type itself, a derived one included, is published and dropped by the tag check.
An object of the class itself reaches every listener unchanged exactly when it is within
the 32-bit limits and its choice ordinals are NONE or declared. -/
theorem written_reaches_listeners_iff {reg : CdrRegistry} (built : Built schema reg)
    (T : MessageType schema) (v : Accessor schema) :
    ∃ s, DdsWriter.write (some reg) false v = .ok s ∧
      (v.typeName ≠ T.typeName → ∀ (L : Type) (listeners : List L) (callListener : Option L),
        dispatchOne (some reg) T listeners s callListener = ⟨[], none⟩) ∧
      ∀ obj, v = T.accessor obj →
        ((∃ got, T.elem.Agrees got obj ∧
            ∀ (L : Type) (listeners : List L) (callListener : Option L),
              dispatchOne (some reg) T listeners s callListener =
                ⟨(callListener.toList ++ listeners).map fun listener =>
                    (listener, T.accessor got), none⟩) ↔
          Elem.InLimits T.elem obj ∧ Elem.ChoicesDeclared T.elem obj) := by
  refine ⟨_, write_run built v, ?_, ?_⟩
  · intro other L listeners callListener
    exact dispatchOne_other_class built T v other _ listeners callListener
  · intro obj same
    subst same
    rw [← Elem.noStale_fresh_iff T.elem obj _ T.elem.fresh_isFresh,
      ← Elem.roundTrip_agrees_iff]
    constructor
    · intro given
      rcases given with ⟨got, agrees, delivered⟩
      rcases decoded_of_dispatchOne built T (delivered Unit [()] none) with ⟨off, run⟩
      exact ⟨off, got, run, agrees⟩
    · intro given
      rcases given with ⟨off, got, run, agrees⟩
      exact ⟨got, agrees, fun L => dispatchOne_run built T run⟩

section Sample

def trackMessage : MessageType sampleSchema :=
  ⟨"TrackMDT", trackLayout, layout_sampleSchema, ⟨⟨"Track", "TrackMDT"⟩, by decide, rfl⟩⟩

def headerMessage : MessageType sampleSchema :=
  ⟨"HeaderType", headerLayout, layout_header, ⟨⟨"Header", "HeaderType"⟩, by decide, rfl⟩⟩

theorem written_reaches_listeners_track :
    ∃ s, DdsWriter.write (some sampleRegistry) false (trackMessage.accessor sampleTrack) = .ok s ∧
      ∃ got, trackLayout.Agrees got sampleTrack ∧
        dispatchOne (some sampleRegistry) trackMessage [3, 5] s (some 1) =
          ⟨[(1, trackMessage.accessor got), (3, trackMessage.accessor got),
            (5, trackMessage.accessor got)], none⟩ := by
  obtain ⟨s, written, _, own⟩ := written_reaches_listeners_iff sampleSchema_built trackMessage
    (trackMessage.accessor sampleTrack)
  refine ⟨s, written, ?_⟩
  obtain ⟨got, agrees, delivered⟩ :=
    (own sampleTrack rfl).mpr ⟨sampleTrack_inLimits, sampleTrack_choicesDeclared⟩
  exact ⟨got, agrees, delivered Nat [3, 5] (some 1)⟩

/-- A track is a header, so a header writer takes it; no header listener gets it. -/
theorem written_track_not_a_header :
    (Elem.castTo headerMessage.typeName trackLayout).isSome = true ∧
      ∃ s, DdsWriter.write (some sampleRegistry) false (trackMessage.accessor sampleTrack) =
          .ok s ∧
        (dispatchOne (some sampleRegistry) headerMessage [()] s none).calls = [] := by
  refine ⟨rfl, _, write_run sampleSchema_built _, ?_⟩
  have other : trackMessage.typeName ≠ headerMessage.typeName := by decide
  rw [dispatchOne_other_class sampleSchema_built headerMessage (trackMessage.accessor sampleTrack)
    other _ [()] none]

def emptyPayload : TaggedSample := ⟨headerMessage.tag, []⟩

def wholeHeader : TaggedSample :=
  ⟨headerMessage.tag, Elem.serialize headerLayout unlabelledHeader []⟩

def torn : List TaggedSample := [emptyPayload, wholeHeader]

theorem unlabelledHeader_inLimits : Elem.InLimits headerLayout unlabelledHeader := by
  simp [headerLayout, headerMembers, unlabelledHeader, Elem.InLimits, Members.InLimits, Fits]

theorem emptyPayload_undecodable :
    Undecodable (some sampleRegistry) headerMessage emptyPayload := by
  apply cut_undecodable sampleSchema_built headerMessage unlabelledHeader unlabelledHeader_inLimits
  · exact List.nil_prefix
  · intro whole
    have missing : ([] : Bytes)[0]? = none := rfl
    rw [whole] at missing
    exact absurd missing (by decide)

theorem wholeHeader_good : Good (some sampleRegistry) headerMessage wholeHeader :=
  written_good sampleSchema_built headerMessage unlabelledHeader unlabelledHeader_inLimits

/-- The good header behind the torn one is lost, to a poll and to the background loop,
which ends. -/
theorem torn_takes_good_with_it :
    (read (some sampleRegistry) headerMessage false [1] torn 0).1.calls ≠
        allDelivered (some sampleRegistry) headerMessage [0, 1] torn ∧
      (onBackgroundSamples (some sampleRegistry) headerMessage [1] torn).calls ≠
        allDelivered (some sampleRegistry) headerMessage [1] torn ∧
      loopContinues (onBackgroundSamples (some sampleRegistry) headerMessage [1] torn) = false := by
  have before : ¬ torn.Pairwise fun earlier later =>
      ¬ (Undecodable (some sampleRegistry) headerMessage earlier ∧
        Good (some sampleRegistry) headerMessage later) := by
    intro apart
    have first := (List.pairwise_cons.mp apart).1
    exact first _ (List.mem_singleton.mpr rfl) ⟨emptyPayload_undecodable, wholeHeader_good⟩
  refine ⟨?_, ?_, ?_⟩
  · rw [read, poll_calls]
    intro all
    exact before ((dispatchAll_calls_iff _ _ _ (some 0) (by simp) torn).mp all)
  · intro all
    exact before ((dispatchAll_calls_iff _ _ [1] none (by simp) torn).mp all)
  · have thrown := dispatchAll_thrown_iff (some sampleRegistry) headerMessage [1] none torn
    cases ended : (dispatchAll (some sampleRegistry) headerMessage [1] none torn).thrown with
    | none =>
        have decodable := thrown.mp ended
        exact absurd emptyPayload_undecodable (decodable _ (by simp [torn]))
    | some e => simp [loopContinues, onBackgroundSamples, ended]

end Sample

end Arcal.Dds
