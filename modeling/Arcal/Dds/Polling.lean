import Arcal.Dds.Dispatch
import Mathlib.Data.List.Count

/-! What a polling read delivers and what it returns. -/

namespace Arcal.Dds

open Schema Cdr

variable {schema : SchemaModel} {L : Type}

def messages (bridge : Option CdrRegistry) (T : MessageType schema) (batch : List TaggedSample) :
    List (Accessor schema) :=
  batch.filterMap fun s =>
    if s.tag = T.tag then
      match cdrDeserialize bridge s.tag s.data T.create with
      | (.ok _, msg) => some msg
      | (.error _, _) => none
    else none

section Received

variable [DecidableEq L]

/-- The `handleMessage` calls one listener got. -/
def Delivery.received {M : Type} (delivery : Delivery L M) (listener : L) : List M :=
  (delivery.calls.filter fun call => call.1 = listener).map Prod.snd

/-- What the polling mode promises: the passed listener gets every message once, in order, the
registered ones as well, and the number returned is that of its calls. -/
structure PolledOnce (bridge : Option CdrRegistry) (T : MessageType schema) (listeners : List L)
    (batch : List TaggedSample) (listener : L)
    (result : Delivery L (Accessor schema) × Except Exc Nat) : Prop where
  own : result.1.received listener = messages bridge T batch
  others : ∀ other ∈ listeners, other ≠ listener →
    result.1.received other = messages bridge T batch
  counted : result.2 = .ok (result.1.received listener).length

end Received

section Counting

theorem flatMap_replicate_length {M : Type} (n : Nat) (all : List M) :
    (all.flatMap (List.replicate n)).length = n * all.length := by
  induction all with
  | nil => rfl
  | cons message rest ih =>
      calc
        ((message :: rest).flatMap (List.replicate n)).length =
            n + (rest.flatMap (List.replicate n)).length := by
          rw [List.flatMap_cons, List.length_append, List.length_replicate]
        _ = n * (rest.length + 1) := by rw [ih, Nat.mul_succ, Nat.add_comm]

theorem flatMap_replicate_eq_iff {M : Type} {n : Nat} {all : List M} :
    all.flatMap (List.replicate n) = all ↔ all = [] ∨ n = 1 := by
  constructor
  · intro same
    have lengths := congrArg List.length same
    rw [flatMap_replicate_length] at lengths
    cases all with
    | nil => exact Or.inl rfl
    | cons message rest =>
        have more : 0 < (message :: rest).length := Nat.succ_pos _
        exact Or.inr (Nat.eq_of_mul_eq_mul_right more (lengths.trans (Nat.one_mul _).symm))
  · rintro (rfl | rfl)
    · rfl
    · exact List.flatMap_singleton' all

end Counting

section Polls

variable (bridge : Option CdrRegistry) (T : MessageType schema)

theorem allDelivered_eq_flatMap (recipients : List L) (batch : List TaggedSample) :
    allDelivered bridge T recipients batch =
      (messages bridge T batch).flatMap fun msg => recipients.map fun listener => (listener, msg) := by
  induction batch with
  | nil => rfl
  | cons s rest ih =>
      rw [allDelivered_cons, ih]
      by_cases right : s.tag = T.tag
      · cases run : cdrDeserialize bridge s.tag s.data T.create with
        | mk result msg =>
            rw [right] at run
            cases result with
            | ok u => simp [allDelivered, messages, right, run]
            | error e => simp [allDelivered, messages, right, run]
      · simp [allDelivered, messages, right]

theorem messages_length {batch : List TaggedSample}
    (decodable : ∀ s ∈ batch, ¬ Undecodable bridge T s) :
    (messages bridge T batch).length = batch.countP fun s => s.tag = T.tag := by
  induction batch with
  | nil => rfl
  | cons s rest ih =>
      have later := ih fun other member => decodable other (List.mem_cons_of_mem _ member)
      rw [List.countP_cons, ← later]
      by_cases right : s.tag = T.tag
      · cases run : cdrDeserialize bridge s.tag s.data T.create with
        | mk result msg =>
            cases result with
            | error e =>
                exact absurd ⟨right, e, by rw [run]⟩ (decodable s List.mem_cons_self)
            | ok u =>
                rw [right] at run
                simp [messages, right, run]
      · simp [messages, right]

theorem poll_of_decodable (name : String) (listeners : List L) {batch : List TaggedSample}
    (decodable : ∀ s ∈ batch, ¬ Undecodable bridge T s) (listener : L) :
    poll name bridge T false listeners batch listener =
      (⟨allDelivered bridge T (listener :: listeners) batch, none⟩, .ok batch.length) := by
  have thrown := (dispatchAll_thrown_iff bridge T listeners (some listener) batch).mpr decodable
  have calls := dispatchAll_calls_of_decodable bridge T listeners (some listener) batch decodable
  have delivery : dispatchAll bridge T listeners (some listener) batch =
      ⟨allDelivered bridge T (listener :: listeners) batch, none⟩ := by
    cases run : dispatchAll bridge T listeners (some listener) batch with
    | mk made ended =>
        rw [run] at thrown calls
        rw [show made = _ from calls, show ended = none from thrown]
        rfl
  simp only [poll, Bool.false_eq_true, if_false, delivery]

variable [DecidableEq L]

theorem received_allDelivered (recipients : List L) (batch : List TaggedSample)
    (thrown : Option Exc) (listener : L) :
    Delivery.received ⟨allDelivered bridge T recipients batch, thrown⟩ listener =
      (messages bridge T batch).flatMap (List.replicate (recipients.count listener)) := by
  have one : ∀ msg : Accessor schema, ((recipients.map fun other => (other, msg)).filter
      fun call => call.1 = listener).map Prod.snd =
        List.replicate (recipients.count listener) msg := by
    intro msg
    induction recipients with
    | nil => rfl
    | cons first rest ih =>
        by_cases same : first = listener
        · simp [same, List.replicate_succ, ← ih]
        · simp [same, ← ih]
  rw [Delivery.received, allDelivered_eq_flatMap, List.filter_flatMap, List.map_flatMap]
  exact List.flatMap_congr fun msg _ => one msg

/-- What both polling reads share. -/
theorem poll_once_iff (name : String) (listeners : List L) {batch : List TaggedSample}
    (decodable : ∀ s ∈ batch, ¬ Undecodable bridge T s) (listener : L) :
    PolledOnce bridge T listeners batch listener
        (poll name bridge T false listeners batch listener) ↔
      batch = [] ∨ (∀ s ∈ batch, s.tag = T.tag) ∧ (listener :: listeners).Nodup := by
  have received := received_allDelivered bridge T (listener :: listeners) batch none
  have held := messages_length bridge T decodable
  rw [poll_of_decodable bridge T name listeners decodable listener]
  constructor
  · rintro ⟨own, others, counted⟩
    have raw : batch.length = (messages bridge T batch).length := by
      rw [← own]
      exact Except.ok.inj counted
    by_cases empty : batch = []
    · exact Or.inl empty
    · have some' : messages bridge T batch ≠ [] := by
        intro none
        rw [none, List.length_nil, List.length_eq_zero_iff] at raw
        exact empty raw
      have once : ∀ other, Delivery.received ⟨allDelivered bridge T (listener :: listeners) batch,
          none⟩ other = messages bridge T batch → (listener :: listeners).count other = 1 := by
        intro other gets
        rw [received, flatMap_replicate_eq_iff] at gets
        exact gets.resolve_left some'
      refine Or.inr ⟨?_, ?_⟩
      · intro s member
        have all := List.countP_eq_length.mp (held.symm.trans raw.symm) s member
        exact of_decide_eq_true all
      · apply List.nodup_iff_count_le_one.mpr
        intro other
        by_cases isOwn : other = listener
        · rw [isOwn, once listener own]
        · by_cases registered : other ∈ listeners
          · rw [once other (others other registered isOwn)]
          · have absent : other ∉ listener :: listeners := by
              rw [List.mem_cons, not_or]
              exact ⟨isOwn, registered⟩
            rw [List.count_eq_zero_of_not_mem absent]
            exact Nat.zero_le 1
  · intro condition
    have each : ∀ other ∈ listener :: listeners, Delivery.received
        ⟨allDelivered bridge T (listener :: listeners) batch, none⟩ other =
          messages bridge T batch := by
      intro other member
      rw [received, flatMap_replicate_eq_iff]
      cases condition with
      | inl empty =>
          rw [empty]
          exact Or.inl rfl
      | inr apart => exact Or.inr (List.count_eq_one_of_mem apart.2 member)
    refine ⟨each listener List.mem_cons_self, ?_, ?_⟩
    · intro other registered _
      exact each other (List.mem_cons_of_mem _ registered)
    · rw [each listener List.mem_cons_self, held]
      refine congrArg Except.ok (List.countP_eq_length.mpr ?_).symm
      intro s member
      cases condition with
      | inl empty =>
          rw [empty] at member
          cases member
      | inr apart => exact decide_eq_true (apart.1 s member)

/-- A polling read of decodable samples keeps its promise exactly when none of them has a
wrong tag and no listener is there twice, the passed one included, or when there are none. -/
theorem polled_once_iff (listeners : List L) {batch : List TaggedSample}
    (decodable : ∀ s ∈ batch, ¬ Undecodable bridge T s) (listener : L) :
    (PolledOnce bridge T listeners batch listener
        (read bridge T false listeners batch listener) ↔
      batch = [] ∨ (∀ s ∈ batch, s.tag = T.tag) ∧ (listener :: listeners).Nodup) ∧
    (PolledOnce bridge T listeners batch listener
        (readNoWait bridge T false listeners batch listener) ↔
      batch = [] ∨ (∀ s ∈ batch, s.tag = T.tag) ∧ (listener :: listeners).Nodup) :=
  ⟨poll_once_iff bridge T "read" listeners decodable listener,
    poll_once_iff bridge T "readNoWait" listeners decodable listener⟩

end Polls

section Sample

theorem wholeHeader_decodable : ∀ s ∈ [wholeHeader],
    ¬ Undecodable (some sampleRegistry) headerMessage s := by
  intro s member
  rw [List.mem_singleton.mp member]
  exact not_undecodable_of_good _ _ wholeHeader_good

/-- The listener that is passed and the two that are registered get one header each. -/
theorem polled_once_header : PolledOnce (some sampleRegistry) headerMessage [1, 2] [wholeHeader] 0
    (read (some sampleRegistry) headerMessage false [1, 2] [wholeHeader] 0) := by
  have tags : ∀ s ∈ [wholeHeader], s.tag = headerMessage.tag := by
    intro s member
    rw [List.mem_singleton.mp member]
    rfl
  have apart : [0, 1, 2].Nodup := by decide
  exact (polled_once_iff (some sampleRegistry) headerMessage [1, 2] wholeHeader_decodable 0).1.mpr
    (.inr ⟨tags, apart⟩)

def passedAndRegistered : Delivery Nat (Accessor sampleSchema) × Except Exc Nat :=
  read (some sampleRegistry) headerMessage false [0] [wholeHeader] 0

def otherType : Delivery Nat (Accessor sampleSchema) × Except Exc Nat :=
  readNoWait (some sampleRegistry) headerMessage false [] [⟨trackMessage.tag, []⟩] 0

/-- One read calls its listener twice for a header and returns one, the other never calls it
and returns one as well. -/
theorem polled_twice_or_never :
    (passedAndRegistered.1.received 0).length = 2 ∧ passedAndRegistered.2 = .ok 1 ∧
      otherType.1.received 0 = [] ∧ otherType.2 = .ok 1 := by
  have foreign : trackMessage.tag ≠ headerMessage.tag := by decide +kernel
  have decodable : ∀ s ∈ [(⟨trackMessage.tag, []⟩ : TaggedSample)],
      ¬ Undecodable (some sampleRegistry) headerMessage s := by
    intro s member
    rw [List.mem_singleton.mp member]
    exact not_undecodable_of_tag _ _ foreign
  have none' : messages (some sampleRegistry) headerMessage [⟨trackMessage.tag, []⟩] = [] := by
    simp [messages, foreign]
  constructor
  · rw [passedAndRegistered, read,
      poll_of_decodable _ headerMessage "read" [0] wholeHeader_decodable,
      received_allDelivered, flatMap_replicate_length, messages_length _ _ wholeHeader_decodable]
    rfl
  constructor
  · rw [passedAndRegistered, read,
      poll_of_decodable _ headerMessage "read" [0] wholeHeader_decodable]
    rfl
  constructor
  · rw [otherType, readNoWait, poll_of_decodable _ headerMessage "readNoWait" [] decodable,
      received_allDelivered, none']
    rfl
  · rw [otherType, readNoWait, poll_of_decodable _ headerMessage "readNoWait" [] decodable]
    rfl

end Sample

end Arcal.Dds
