import Arcal.Lacal.Replies

/-! `deliver` on its own: what one sample makes the monitor send to each client when nothing
comes between. -/

namespace Arcal.Lacal

/-- A decoded sample. Neither of its names holds a line break. -/
structure Sample where
  topicName : Bytes
  messageName : Bytes
  json : Bytes
  topicLine : newline ∉ topicName
  messageLine : newline ∉ messageName
  deriving DecidableEq

def Sample.matches (sample : Sample) (xsub : XSub) : Bool :=
  globMatch xsub.topicPattern sample.topicName &&
    globMatch xsub.messagePattern sample.messageName

def Sample.concrete (sample : Sample) (streamId : Bytes) : Concrete :=
  ⟨streamId, sample.topicName, sample.messageName⟩

/-- `"xsub." + std::to_string(nextSubId)` -/
def generatedId (n : UInt64) : Bytes := utf8 "xsub." ++ decimal n.toNat

/-- The id of a concrete subscription, and whether it is a new one. The counter wraps. -/
def ensureConcreteSubscription (s : Session) (concrete : Concrete) : Session × Bytes × Bool :=
  match found : s.concreteSubs.find concrete.key with
  | some subId => (s, subId, false)
  | none =>
      let subId := generatedId s.nextSubId
      ({ s with
        concreteSubs := s.concreteSubs.add concrete.key subId found
        nextSubId := s.nextSubId + 1 }, subId, true)

def deliverXSub (sample : Sample) (s : Session) (xsub : XSub) : Session × List Line :=
  if sample.matches xsub then
    let concrete := sample.concrete xsub.streamId
    let (s, subId, isNew) := ensureConcreteSubscription s concrete
    (s, (if isNew then [.xsubInfo concrete subId] else []) ++
      [.msg (some concrete) subId sample.json])
  else (s, [])

def deliverXSubs (sample : Sample) : Session → List XSub → Session × List Line
  | s, [] => (s, [])
  | s, xsub :: rest =>
      let here := deliverXSub sample s xsub
      let later := deliverXSubs sample here.1 rest
      (later.1, here.2 ++ later.2)

/-- The loop over `standardSubs`. -/
def deliverStandard (sample : Sample) (subs : List StandardSub) : List Line :=
  (subs.filter fun sub =>
      sub.topic = sample.topicName && sub.messageName = sample.messageName).map
    fun sub => .msg none sub.subscriptionId sample.json

/-- One client; its standard subscriptions come in some order. -/
def deliverTo (sample : Sample) (s : Session) : Session × List Line :=
  let wildcard := deliverXSubs sample s s.xsubs
  (wildcard.1, deliverStandard sample s.standardSubs.values ++ wildcard.2)

def deliver (sample : Sample) (clients : List Session) : List (Session × List Line) :=
  (clients.filter Session.isOpen).map (deliverTo sample)

def isMessageFor (streamId : Bytes) : Line → Bool
  | .msg (some concrete) _ _ => concrete.streamId = streamId
  | _ => false

def messagesFor (streamId : Bytes) (lines : List Line) : Nat :=
  lines.countP (isMessageFor streamId)

def matching (sample : Sample) (s : Session) (streamId : Bytes) : List XSub :=
  s.xsubs.filter fun xsub => xsub.streamId = streamId && sample.matches xsub

theorem messagesFor_deliverXSub (sample : Sample) (s : Session) (xsub : XSub) (streamId : Bytes) :
    messagesFor streamId (deliverXSub sample s xsub).2 =
      if xsub.streamId = streamId && sample.matches xsub then 1 else 0 := by
  unfold deliverXSub
  by_cases hit : sample.matches xsub = true
  · rw [if_pos hit]
    simp only
    generalize ensureConcreteSubscription s (sample.concrete xsub.streamId) = ensured
    rcases ensured with ⟨s', subId, isNew⟩
    cases isNew with
    | true => simp [messagesFor, hit, isMessageFor, Sample.concrete, List.countP_cons]
    | false => simp [messagesFor, hit, isMessageFor, Sample.concrete, List.countP_cons]
  · simp [messagesFor, hit]

theorem messagesFor_deliverXSubs (sample : Sample) (xsubs : List XSub) (s : Session)
    (streamId : Bytes) :
    messagesFor streamId (deliverXSubs sample s xsubs).2 =
      xsubs.countP fun xsub => xsub.streamId = streamId && sample.matches xsub := by
  induction xsubs generalizing s with
  | nil => rfl
  | cons xsub rest ih =>
      have here := messagesFor_deliverXSub sample s xsub streamId
      have later := ih (deliverXSub sample s xsub).1
      calc
        messagesFor streamId (deliverXSubs sample s (xsub :: rest)).2 =
            messagesFor streamId (deliverXSub sample s xsub).2 +
              messagesFor streamId (deliverXSubs sample (deliverXSub sample s xsub).1 rest).2 :=
          List.countP_append
        _ = (if xsub.streamId = streamId && sample.matches xsub then 1 else 0) +
              rest.countP fun xsub => xsub.streamId = streamId && sample.matches xsub := by
          rw [here, later]
        _ = (xsub :: rest).countP fun xsub => xsub.streamId = streamId && sample.matches xsub := by
          rw [List.countP_cons, Nat.add_comm]

theorem messagesFor_standard (sample : Sample) (subs : List StandardSub) (streamId : Bytes) :
    messagesFor streamId (deliverStandard sample subs) = 0 := by
  rw [messagesFor, List.countP_eq_zero]
  intro line member
  rcases List.mem_map.mp member with ⟨sub, _, same⟩
  rw [← same]
  exact Bool.false_ne_true

theorem messagesFor_deliverTo (sample : Sample) (s : Session) (streamId : Bytes) :
    messagesFor streamId (deliverTo sample s).2 = (matching sample s streamId).length := by
  have wildcard := messagesFor_deliverXSubs sample s.xsubs s streamId
  have standard := messagesFor_standard sample s.standardSubs.values streamId
  calc
    messagesFor streamId (deliverTo sample s).2 =
        messagesFor streamId (deliverStandard sample s.standardSubs.values) +
          messagesFor streamId (deliverXSubs sample s s.xsubs).2 := List.countP_append
    _ = s.xsubs.countP fun xsub => xsub.streamId = streamId && sample.matches xsub := by
      rw [standard, wildcard, Nat.zero_add]
    _ = (matching sample s streamId).length := List.countP_eq_length_filter

/-- Each stream is reached at most once, and once if one of its `XSUB`s matches. -/
def ReachesOnce (sample : Sample) (s : Session) (lines : List Line) : Prop :=
  ∀ streamId, messagesFor streamId lines ≤ 1 ∧
    ((∃ xsub ∈ s.xsubs, xsub.streamId = streamId ∧ sample.matches xsub = true) →
      messagesFor streamId lines = 1)

/-- A sample reaches the streams of every open client once exactly when none of them has
two matching `XSUB`s on one stream. -/
theorem deliver_reachesOnce_iff (sample : Sample) (clients : List Session) :
    List.Forall₂ (fun s delivered => ReachesOnce sample s delivered.2)
        (clients.filter Session.isOpen) (deliver sample clients) ↔
      ∀ s ∈ clients, s.isOpen = true → ∀ streamId, (matching sample s streamId).length ≤ 1 := by
  have each : ∀ s, ReachesOnce sample s (deliverTo sample s).2 ↔
      ∀ streamId, (matching sample s streamId).length ≤ 1 := by
    intro s
    constructor
    · intro reaches streamId
      rw [← messagesFor_deliverTo]
      exact (reaches streamId).1
    · intro single streamId
      rw [messagesFor_deliverTo]
      have most := single streamId
      refine ⟨most, ?_⟩
      intro given
      rcases given with ⟨xsub, inside, named, hit⟩
      have found : xsub ∈ matching sample s streamId := by
        rw [matching, List.mem_filter]
        exact ⟨inside, by simp [named, hit]⟩
      have least := List.length_pos_of_mem found
      omega
  rw [deliver, List.forall₂_map_right_iff, List.forall₂_same]
  constructor
  · intro all s member isOpen
    exact (each s).mp (all s (List.mem_filter.mpr ⟨member, isOpen⟩))
  · intro single s member
    rcases List.mem_filter.mp member with ⟨inside, isOpen⟩
    exact (each s).mpr (single s inside isOpen)

section Sample

def trackSample : Sample where
  topicName := utf8 "Track"
  messageName := utf8 "TrackMT"
  json := utf8 "\x7b\x7d"
  topicLine := by decide
  messageLine := by decide

def twiceSubscribed : Session :=
  after sampleParse 8766 {}
    [utf8 "INIT " ++ initText, utf8 "XSUB bus *", utf8 "XSUB bus T*"]

theorem twiceSubscribed_xsubs : twiceSubscribed.isOpen = true ∧ twiceSubscribed.xsubs =
    [⟨utf8 "bus", utf8 "*", utf8 "*"⟩, ⟨utf8 "bus", utf8 "T*", utf8 "*"⟩] := by
  decide +kernel

theorem trackSample_matches (pattern : Bytes) (known : pattern ∈ [utf8 "*", utf8 "T*"]) :
    globMatch pattern trackSample.topicName = true ∧
      globMatch (utf8 "*") trackSample.messageName = true := by
  have all : utf8 "*" = [asterisk] := by decide
  have some' : utf8 "T*" = [0x54, asterisk] := by decide
  have topic : trackSample.topicName = [0x54, 0x72, 0x61, 0x63, 0x6b] := by decide
  have message : trackSample.messageName = [0x54, 0x72, 0x61, 0x63, 0x6b, 0x4d, 0x54] := by decide
  rw [all, some'] at known
  rw [all, topic, message]
  rcases List.mem_pair.mp known with same | same
  · rw [same]
    simp [globMatch, globLoop, questionMark, asterisk]
  · rw [same]
    simp [globMatch, globLoop, questionMark, asterisk]

/-- Both of its `XSUB`s match, and the sample is sent twice. -/
theorem deliver_repeats_message :
    twiceSubscribed.isOpen = true ∧
      messagesFor (utf8 "bus") (deliverTo trackSample twiceSubscribed).2 = 2 ∧
      ¬ ReachesOnce trackSample twiceSubscribed (deliverTo trackSample twiceSubscribed).2 := by
  have first := trackSample_matches (utf8 "*") (by decide)
  have second := trackSample_matches (utf8 "T*") (by decide)
  have twice : messagesFor (utf8 "bus") (deliverTo trackSample twiceSubscribed).2 = 2 := by
    rw [messagesFor_deliverTo, matching, twiceSubscribed_xsubs.2]
    simp [Sample.matches, first, second]
  refine ⟨twiceSubscribed_xsubs.1, twice, ?_⟩
  intro reaches
  have most := (reaches (utf8 "bus")).1
  omega

end Sample

end Arcal.Lacal
