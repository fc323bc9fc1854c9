import Arcal.Lacal.Machine

/-! Commands and deliveries that nothing interrupts: the two threads then do what `receive`
and `deliverTo` say. -/

namespace Arcal.Lacal

open JsonText (Value)
open Transition

def Event.postedBy (thread : Thread) : Event → Option Line
  | .post poster line => if poster = thread then some line else none
  | _ => none

def posted (thread : Thread) (events : List Event) : List Line :=
  events.filterMap fun event => event.postedBy thread

theorem posted_append (thread : Thread) (first second : List Event) :
    posted thread (first ++ second) = posted thread first ++ posted thread second :=
  List.filterMap_append

theorem mem_posted {thread : Thread} {events : List Event} {line : Line} :
    line ∈ posted thread events ↔ .post thread line ∈ events := by
  rw [posted, List.mem_filterMap]
  constructor
  · intro given
    rcases given with ⟨event, member, same⟩
    cases event with
    | post poster other =>
        simp only [Event.postedBy, Option.ite_none_right_eq_some, Option.some.injEq] at same
        rw [← same.1, ← same.2]
        exact member
    | handled payload => cases same
    | returned payload => cases same
    | generated concrete subId => cases same
  · intro member
    exact ⟨_, member, if_pos rfl⟩

theorem posted_posts (thread : Thread) (lines : List Line) :
    posted thread (lines.map (.post thread)) = lines := by
  induction lines with
  | nil => rfl
  | cons line rest ih =>
      rw [List.map_cons, ← List.singleton_append, posted_append, ih]
      simp [posted, Event.postedBy]

def Event.generation : Event → Option (Concrete × Bytes)
  | .generated concrete subId => some (concrete, subId)
  | _ => none

/-- The ids that were generated, in order, and what each was generated for. -/
def generations (events : List Event) : List (Concrete × Bytes) := events.filterMap Event.generation

theorem mem_generations {events : List Event} {concrete : Concrete} {subId : Bytes} :
    (concrete, subId) ∈ generations events ↔ .generated concrete subId ∈ events := by
  rw [generations, List.mem_filterMap]
  constructor
  · intro given
    rcases given with ⟨event, member, same⟩
    cases event with
    | post poster line => cases same
    | handled payload => cases same
    | returned payload => cases same
    | generated other otherId =>
        injection same with same
        injection same with first second
        rw [← first, ← second]
        exact member
  · intro member
    exact ⟨_, member, rfl⟩

theorem generations_append (first second : List Event) :
    generations (first ++ second) = generations first ++ generations second :=
  List.filterMap_append

theorem generations_posts (thread : Thread) (lines : List Line) :
    generations (lines.map (.post thread)) = [] := by
  rw [generations, List.filterMap_eq_nil_iff]
  intro event member
  rcases List.mem_map.mp member with ⟨line, _, same⟩
  rw [← same]
  rfl

section Runs

variable (parse : Bytes → Except Exc Value) (port : UInt16)

theorem run_replies {m : Machine} {payload : Bytes} {accepted closes : Bool} {lines : List Line}
    (replying : m.io = .replying payload accepted lines closes) (isOpen : m.session.isOpen = true) :
    Reaches (step parse port) m { m with
      session := { m.session with isOpen := !closes }
      io := .reading
      events := m.events ++ lines.map (.post .io) ++ if accepted then [.returned payload] else [] } := by
  induction lines generalizing m with
  | nil =>
      have done : step parse port m .reply = some { m with
          session := { m.session with isOpen := !closes }
          io := .reading
          events := m.events ++ [] ++ if accepted then [.returned payload] else [] } := by
        simp [step, replyStep, replying, isOpen]
      exact .of_step done
  | cons line rest ih =>
      have first : step parse port m .reply = some { m with
          io := .replying payload accepted rest closes
          events := m.events ++ [.post .io line] } := by
        simp [step, replyStep, replying, sendLine_open isOpen]
      have later := ih (m := { m with
        io := .replying payload accepted rest closes
        events := m.events ++ [.post .io line] }) rfl isOpen
      rw [List.map_cons, ← List.singleton_append, ← List.append_assoc]
      exact (Reaches.of_step first).trans later

theorem run_command {m : Machine} (reading : m.io = .reading) (isOpen : m.session.isOpen = true)
    (payload : Bytes) :
    Reaches (step parse port) m { m with
      session := (receive parse port m.session payload).1
      io := .reading
      events := m.events ++
        (if (handleLine parse port m.session payload).accepted then [.handled payload] else []) ++
        (receive parse port m.session payload).2.map (.post .io) ++
        if (handleLine parse port m.session payload).accepted then [.returned payload] else [] } := by
  have kept := (handleLine_polite parse port m.session payload).isOpen
  rw [receive, if_pos isOpen]
  generalize given : handleLine parse port m.session payload = handled at kept
  have first : step parse port m (.line payload) = some { m with
      session := handled.session
      io := .replying payload handled.accepted handled.lines handled.closes
      events := m.events ++ if handled.accepted then [.handled payload] else [] } := by
    simp [step, lineStep, reading, isOpen, given]
  have later := run_replies parse port (m := { m with
      session := handled.session
      io := .replying payload handled.accepted handled.lines handled.closes
      events := m.events ++ if handled.accepted then [.handled payload] else [] }) rfl
    (kept.trans isOpen)
  exact (Reaches.of_step first).trans later

theorem run_commands {m : Machine} (reading : m.io = .reading) (lines : List Bytes) :
    ∃ next, Reaches (step parse port) m next ∧
      next.session = after parse port m.session lines ∧ next.io = .reading ∧
      next.monitor = m.monitor ∧ m.events <+: next.events ∧
      generations next.events = generations m.events := by
  induction lines generalizing m with
  | nil => exact ⟨m, .refl m, rfl, reading, rfl, List.prefix_rfl, rfl⟩
  | cons line rest ih =>
      cases isOpen : m.session.isOpen with
      | false =>
          exact ⟨m, .refl m, (after_closed parse port isOpen _).symm, reading, rfl,
            List.prefix_rfl, rfl⟩
      | true =>
          have here := run_command parse port reading isOpen line
          generalize isNext : Machine.mk _ _ _ _ = next at here
          rcases ih (m := next) (by rw [← isNext]) with
            ⟨last, later, session, stillReading, monitor, kept, noIds⟩
          have grows : m.events <+: next.events := by
            rw [← isNext]
            simp only [List.append_assoc]
            exact List.prefix_append _ _
          have quiet : generations next.events = generations m.events := by
            have noId : ∀ (accepted : Bool) (event : Event), event.generation = none →
                generations (if accepted then [event] else []) = [] := by
              intro accepted event other
              cases accepted with
              | true => simp [generations, other]
              | false => rfl
            rw [← isNext]
            simp only [generations_append, generations_posts, noId _ (.handled line) rfl,
              noId _ (.returned line) rfl, List.append_nil]
          refine ⟨last, here.trans later, ?_, stillReading, ?_, grows.trans kept, noIds.trans quiet⟩
          · rw [session, ← isNext]
            rfl
          · rw [monitor, ← isNext]

structure Delivered (m : Machine) (session : Session) (lines : List Line) (last : Machine) : Prop where
  session : last.session = session
  io : last.io = m.io
  monitor : last.monitor = .idle
  posted : posted .monitor last.events = posted .monitor m.events ++ lines
  kept : m.events <+: last.events
  generated : (generations last.events).length ≤ (generations m.events).length + lines.length

theorem run_standard {m : Machine} {sample : Sample} {subs : List StandardSub} {xsubs : List XSub}
    (looping : m.monitor = .standard sample subs xsubs) (isOpen : m.session.isOpen = true) :
    Reaches (step parse port) m { m with
      monitor := .wildcard sample xsubs
      events := m.events ++ (deliverStandard sample subs).map (.post .monitor) } := by
  induction subs generalizing m with
  | nil =>
      have done : step parse port m .monitor = some { m with
          monitor := .wildcard sample xsubs
          events := m.events ++ [] } := by
        simp [step, monitorStep, looping]
      exact .of_step done
  | cons sub rest ih =>
      by_cases hit : sub.topic = sample.topicName ∧ sub.messageName = sample.messageName
      · have first : step parse port m .monitor = some { m with
            monitor := .standard sample rest xsubs
            events := m.events ++
              [.post .monitor (.msg none sub.subscriptionId sample.json)] } := by
          simp [step, monitorStep, looping, hit, Machine.sendLine, isOpen]
        have later := ih (m := { m with
          monitor := .standard sample rest xsubs
          events := m.events ++
            [.post .monitor (.msg none sub.subscriptionId sample.json)] }) rfl isOpen
        have sent : deliverStandard sample (sub :: rest) =
            .msg none sub.subscriptionId sample.json :: deliverStandard sample rest := by
          simp [deliverStandard, hit.1, hit.2]
        rw [sent, List.map_cons, ← List.singleton_append, ← List.append_assoc]
        exact (Reaches.of_step first).trans later
      · have first : step parse port m .monitor =
            some { m with monitor := .standard sample rest xsubs } := by
          simp [step, monitorStep, looping, if_neg hit]
        have sent : deliverStandard sample (sub :: rest) = deliverStandard sample rest := by
          simp [deliverStandard, hit]
        rw [sent]
        exact (Reaches.of_step first).trans
          (ih (m := { m with monitor := .standard sample rest xsubs }) rfl isOpen)

theorem run_announce {m : Machine} {sample : Sample} {streamId subId : Bytes} {rest : List XSub}
    (owed : m.monitor = .announce sample streamId subId rest) (isOpen : m.session.isOpen = true) :
    Reaches (step parse port) m { m with
      monitor := .message sample streamId subId rest
      events := m.events ++ [.post .monitor (.xsubInfo (sample.concrete streamId) subId)] } := by
  have sends : step parse port m .monitor = some { m with
      monitor := .message sample streamId subId rest
      events := m.events ++ [.post .monitor (.xsubInfo (sample.concrete streamId) subId)] } := by
    simp only [step, monitorStep, owed, Machine.sendLine, isOpen, if_true]
  exact .of_step sends

theorem run_allocation {m : Machine} {sample : Sample} {xsub : XSub} {rest : List XSub}
    (looping : m.monitor = .wildcard sample (xsub :: rest)) (isOpen : m.session.isOpen = true)
    (hit : sample.matches xsub = true)
    (absent : m.session.concreteSubs.find (sample.concrete xsub.streamId).key = none) :
    Reaches (step parse port) m { m with
      session := { m.session with
        concreteSubs := m.session.concreteSubs.add (sample.concrete xsub.streamId).key
          (generatedId m.session.nextSubId) absent
        nextSubId := m.session.nextSubId + 1 }
      monitor := .message sample xsub.streamId (generatedId m.session.nextSubId) rest
      events := m.events ++
        [.generated (sample.concrete xsub.streamId) (generatedId m.session.nextSubId)] ++
        [.post .monitor (.xsubInfo (sample.concrete xsub.streamId)
          (generatedId m.session.nextSubId))] } := by
  have allocates : step parse port m .monitor = some { m with
      session := { m.session with
        concreteSubs := m.session.concreteSubs.add (sample.concrete xsub.streamId).key
          (generatedId m.session.nextSubId) absent
        nextSubId := m.session.nextSubId + 1 }
      monitor := .announce sample xsub.streamId (generatedId m.session.nextSubId) rest
      events := m.events ++
        [.generated (sample.concrete xsub.streamId) (generatedId m.session.nextSubId)] } := by
    simp only [step, monitorStep, looping, if_pos hit, ensureStep, ensure_new absent]
  exact (Reaches.of_step allocates).trans (run_announce parse port rfl isOpen)

theorem run_message {m : Machine} {sample : Sample} {streamId subId : Bytes} {rest : List XSub}
    (owed : m.monitor = .message sample streamId subId rest) (isOpen : m.session.isOpen = true) :
    Reaches (step parse port) m { m with
      monitor := .wildcard sample rest
      events := m.events ++
        [.post .monitor (.msg (some (sample.concrete streamId)) subId sample.json)] } := by
  have sends : step parse port m .monitor = some { m with
      monitor := .wildcard sample rest
      events := m.events ++
        [.post .monitor (.msg (some (sample.concrete streamId)) subId sample.json)] } := by
    simp only [step, monitorStep, owed, Machine.sendLine, isOpen, if_true]
  exact .of_step sends

theorem run_xsub {m : Machine} {sample : Sample} {xsub : XSub} {rest : List XSub}
    (looping : m.monitor = .wildcard sample (xsub :: rest)) (isOpen : m.session.isOpen = true) :
    ∃ next, Reaches (step parse port) m next ∧
      next.session = (deliverXSub sample m.session xsub).1 ∧ next.io = m.io ∧
      next.monitor = .wildcard sample rest ∧ next.session.isOpen = true ∧
      posted .monitor next.events =
        posted .monitor m.events ++ (deliverXSub sample m.session xsub).2 ∧
      m.events <+: next.events ∧
      (generations next.events).length ≤
        (generations m.events).length + (deliverXSub sample m.session xsub).2.length := by
  by_cases hit : sample.matches xsub = true
  · simp only [deliverXSub, if_pos hit]
    cases found : m.session.concreteSubs.find (sample.concrete xsub.streamId).key with
    | some subId =>
        have finds : step parse port m .monitor =
            some { m with monitor := .message sample xsub.streamId subId rest } := by
          simp only [step, monitorStep, looping, if_pos hit, ensureStep, ensure_known found]
        have sends := run_message parse port
          (m := { m with monitor := .message sample xsub.streamId subId rest }) rfl isOpen
        rw [ensure_known found]
        refine ⟨_, (Reaches.of_step finds).trans sends, rfl, rfl, rfl, isOpen, ?_,
          List.prefix_append _ _, ?_⟩
        · rw [posted_append]
          rfl
        · rw [generations_append, List.length_append]
          exact Nat.add_le_add_left (Nat.zero_le 1) _
    | none =>
        have allocates := run_allocation parse port looping isOpen hit found
        have sends := run_message parse port (m := { m with
          session := { m.session with
            concreteSubs := m.session.concreteSubs.add (sample.concrete xsub.streamId).key
              (generatedId m.session.nextSubId) found
            nextSubId := m.session.nextSubId + 1 }
          monitor := .message sample xsub.streamId (generatedId m.session.nextSubId) rest
          events := m.events ++
            [.generated (sample.concrete xsub.streamId) (generatedId m.session.nextSubId)] ++
            [.post .monitor (.xsubInfo (sample.concrete xsub.streamId)
              (generatedId m.session.nextSubId))] }) rfl isOpen
        rw [ensure_new found]
        refine ⟨_, allocates.trans sends, rfl, rfl, rfl, isOpen, ?_, ?_, ?_⟩
        · rw [posted_append, posted_append, posted_append, List.append_assoc, List.append_assoc]
          rfl
        · rw [List.append_assoc, List.append_assoc]
          exact List.prefix_append _ _
        · rw [generations_append, generations_append, generations_append, List.append_assoc,
            List.append_assoc, List.length_append]
          exact Nat.add_le_add_left (Nat.le_succ 1) _
  · have first : step parse port m .monitor = some { m with monitor := .wildcard sample rest } := by
      simp [step, monitorStep, looping, hit]
    rw [deliverXSub, if_neg hit]
    exact ⟨_, Reaches.of_step first, rfl, rfl, rfl, isOpen, (List.append_nil _).symm,
      List.prefix_rfl, Nat.le_refl _⟩

theorem run_wildcard {m : Machine} {sample : Sample} {xsubs : List XSub}
    (looping : m.monitor = .wildcard sample xsubs) (isOpen : m.session.isOpen = true) :
    ∃ last, Reaches (step parse port) m last ∧
      Delivered m (deliverXSubs sample m.session xsubs).1
        (deliverXSubs sample m.session xsubs).2 last := by
  induction xsubs generalizing m with
  | nil =>
      have done : step parse port m .monitor = some { m with monitor := .idle } := by
        simp [step, monitorStep, looping]
      exact ⟨_, Reaches.of_step done, rfl, rfl, rfl, (List.append_nil _).symm, List.prefix_rfl,
        Nat.le_refl _⟩
  | cons xsub rest ih =>
      rcases run_xsub parse port looping isOpen with
        ⟨next, here, session, io, monitor, stillOpen, sent, kept, few⟩
      rcases ih monitor stillOpen with ⟨last, later, delivered⟩
      rw [session] at delivered
      refine ⟨last, here.trans later, delivered.session, delivered.io.trans io, delivered.monitor,
        ?_, kept.trans delivered.kept, ?_⟩
      · rw [delivered.posted, sent, List.append_assoc, deliverXSubs]
      · have fewer := delivered.generated
        rw [deliverXSubs, List.length_append]
        omega

/-- A sample that comes while nothing else happens is delivered as `deliverTo` says. -/
theorem run_deliver {m : Machine} (idle : m.monitor = .idle) (isOpen : m.session.isOpen = true)
    (sample : Sample) :
    ∃ last, Reaches (step parse port) m last ∧
      Delivered m (deliverTo sample m.session).1 (deliverTo sample m.session).2 last := by
  have arrives : step parse port m (.arrive sample) = some { m with monitor := .visit sample } := by
    simp [step, idle, isOpen]
  have copies : step parse port { m with monitor := .visit sample }
      (.snapshot m.session.standardSubs.values) = some
        { m with monitor := .standard sample m.session.standardSubs.values m.session.xsubs } := by
    simp [step]
  have standard := run_standard parse port (m := { m with
    monitor := .standard sample m.session.standardSubs.values m.session.xsubs }) rfl isOpen
  rcases run_wildcard parse port (m := { m with
      monitor := .wildcard sample m.session.xsubs
      events := m.events ++
        (deliverStandard sample m.session.standardSubs.values).map (.post .monitor) })
    rfl isOpen with ⟨last, wildcard, delivered⟩
  refine ⟨last, (Reaches.of_step arrives).trans ((Reaches.of_step copies).trans
    (standard.trans wildcard)), delivered.session, delivered.io, delivered.monitor, ?_, ?_, ?_⟩
  · rw [delivered.posted, posted_append, posted_posts, List.append_assoc, deliverTo]
  · exact (List.prefix_append _ _).trans delivered.kept
  · have few := delivered.generated
    simp only [generations_append, generations_posts, List.append_nil] at few
    rw [deliverTo, List.length_append]
    omega

end Runs

end Arcal.Lacal
