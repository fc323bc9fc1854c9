import Arcal.Lacal.Deliver
import Arcal.Lacal.Effect
import Arcal.Lib.Transition

/-! One client between two threads: the I/O thread handles its lines, the monitor thread
delivers samples to it. A critical section under `stateMutex` is one step, every `sendLine`
another. What the monitor does for other clients does not touch this one. -/

namespace Arcal.Lacal

open JsonText (Value)
open Transition

inductive Thread
  | io
  | monitor
  deriving DecidableEq

/-- What has happened so far: lines that were posted, accepted lines whose effect is done and
whose handler has returned, and ids that were generated. -/
inductive Event
  | post (thread : Thread) (line : Line)
  | handled (payload : Bytes)
  | returned (payload : Bytes)
  | generated (concrete : Concrete) (subId : Bytes)
  deriving DecidableEq

/-- Where the I/O thread stands; a handler that is done with the session still has lines to
send. -/
inductive IoPc
  | reading
  | replying (payload : Bytes) (accepted : Bool) (lines : List Line) (closes : Bool)

/-- Where the monitor thread stands in `deliver`, as far as this client is concerned. -/
inductive MonitorPc
  | idle
  | visit (sample : Sample)
  | standard (sample : Sample) (subs : List StandardSub) (xsubs : List XSub)
  | wildcard (sample : Sample) (xsubs : List XSub)
  | announce (sample : Sample) (streamId subId : Bytes) (rest : List XSub)
  | message (sample : Sample) (streamId subId : Bytes) (rest : List XSub)

namespace MonitorPc

def pending : MonitorPc → List XSub
  | .idle => []
  | .visit _ => []
  | .standard _ _ xsubs => xsubs
  | .wildcard _ xsubs => xsubs
  | .announce _ _ _ rest => rest
  | .message _ _ _ rest => rest

def announcing : MonitorPc → Option (Concrete × Bytes)
  | .announce sample streamId subId _ => some (sample.concrete streamId, subId)
  | _ => none

def sending : MonitorPc → Option (Concrete × Bytes)
  | .message sample streamId subId _ => some (sample.concrete streamId, subId)
  | _ => none

end MonitorPc

structure Machine where
  session : Session := {}
  io : IoPc := .reading
  monitor : MonitorPc := .idle
  events : List Event := []

/-- The stream that the next step of the monitor makes a concrete subscription for. -/
def Machine.allocates (m : Machine) : Option Bytes :=
  match m.monitor with
  | .wildcard sample (xsub :: _) =>
      if sample.matches xsub &&
          (m.session.concreteSubs.find (sample.concrete xsub.streamId).key).isNone then
        some xsub.streamId
      else none
  | _ => none

/-- A closed client is sent nothing. -/
def Machine.sendLine (m : Machine) (thread : Thread) (line : Line) : Machine :=
  { m with events := m.events ++ if m.session.isOpen then [.post thread line] else [] }

/-- Who moves: the client sends a line or is lost, the I/O thread goes on replying, a sample
comes, the monitor copies the subscriptions (the standard ones in some order) or goes on. -/
inductive Label
  | line (payload : Bytes)
  | reply
  | disconnect
  | arrive (sample : Sample)
  | snapshot (subs : List StandardSub)
  | monitor

section Steps

variable (parse : Bytes → Except Exc Value) (port : UInt16)

def lineStep (m : Machine) (payload : Bytes) : Option Machine :=
  match m.io with
  | .reading =>
      -- A write that failed closes the session too, and Beast then aborts the read that is
      -- pending, so its handler sees an error and no line.
      if m.session.isOpen then
        let handled := handleLine parse port m.session payload
        some { m with
          session := handled.session
          io := .replying payload handled.accepted handled.lines handled.closes
          events := m.events ++ if handled.accepted then [.handled payload] else [] }
      else none
  | .replying .. => none

def replyStep (m : Machine) : Option Machine :=
  match m.io with
  | .reading => none
  | .replying payload accepted (line :: rest) closes =>
      some { m.sendLine .io line with io := .replying payload accepted rest closes }
  | .replying payload accepted [] closes =>
      some { m with
        session := { m.session with isOpen := m.session.isOpen && !closes }
        io := .reading
        events := m.events ++ if accepted then [.returned payload] else [] }

/-- `ensureConcreteSubscription` and the two ways on from it. -/
def ensureStep (m : Machine) (sample : Sample) (streamId : Bytes) (rest : List XSub) : Machine :=
  match ensureConcreteSubscription m.session (sample.concrete streamId) with
  | (session, subId, true) =>
      { m with
        session
        monitor := .announce sample streamId subId rest
        events := m.events ++ [.generated (sample.concrete streamId) subId] }
  | (session, subId, false) =>
      { m with session, monitor := .message sample streamId subId rest }

def monitorStep (m : Machine) : Option Machine :=
  match m.monitor with
  | .idle => none
  | .visit _ => none
  | .standard sample (sub :: rest) xsubs =>
      let next := { m with monitor := .standard sample rest xsubs }
      some (if sub.topic = sample.topicName ∧ sub.messageName = sample.messageName then
        next.sendLine .monitor (.msg none sub.subscriptionId sample.json) else next)
  | .standard sample [] xsubs => some { m with monitor := .wildcard sample xsubs }
  | .wildcard sample (xsub :: rest) =>
      if sample.matches xsub then some (ensureStep m sample xsub.streamId rest)
      else some { m with monitor := .wildcard sample rest }
  | .wildcard _ [] => some { m with monitor := .idle }
  | .announce sample streamId subId rest =>
      some { m.sendLine .monitor (.xsubInfo (sample.concrete streamId) subId) with
        monitor := .message sample streamId subId rest }
  | .message sample streamId subId rest =>
      some { m.sendLine .monitor (.msg (some (sample.concrete streamId)) subId sample.json) with
        monitor := .wildcard sample rest }

def step (m : Machine) : Label → Option Machine
  | .line payload => lineStep parse port m payload
  | .reply => replyStep m
  | .disconnect =>
      match m.io with
      | .reading => some { m with session := { m.session with isOpen := false } }
      | .replying .. => none
  | .arrive sample =>
      match m.monitor with
      | .idle => if m.session.isOpen then some { m with monitor := .visit sample } else none
      | _ => none
  | .snapshot subs =>
      match m.monitor with
      | .visit sample =>
          if subs.Perm m.session.standardSubs.values then
            some { m with monitor := .standard sample subs m.session.xsubs }
          else none
      | _ => none
  | .monitor => monitorStep m

end Steps

@[simp] theorem sendLine_session (m : Machine) (thread : Thread) (line : Line) :
    (m.sendLine thread line).session = m.session := rfl

@[simp] theorem sendLine_io (m : Machine) (thread : Thread) (line : Line) :
    (m.sendLine thread line).io = m.io := rfl

@[simp] theorem sendLine_monitor (m : Machine) (thread : Thread) (line : Line) :
    (m.sendLine thread line).monitor = m.monitor := rfl

theorem sendLine_open {m : Machine} (isOpen : m.session.isOpen = true) (thread : Thread)
    (line : Line) : (m.sendLine thread line).events = m.events ++ [.post thread line] := by
  simp only [Machine.sendLine, isOpen, if_true]

theorem sendLine_closed {m : Machine} (closed : m.session.isOpen = false) (thread : Thread)
    (line : Line) : (m.sendLine thread line).events = m.events := by
  simp [Machine.sendLine, closed]

theorem ensure_known {s : Session} {concrete : Concrete} {subId : Bytes}
    (known : s.concreteSubs.find concrete.key = some subId) :
    ensureConcreteSubscription s concrete = (s, subId, false) := by
  unfold ensureConcreteSubscription
  split
  · next other found =>
    rw [known] at found
    rw [Option.some.inj found]
  · next absent =>
    rw [known] at absent
    cases absent

theorem ensure_new {s : Session} {concrete : Concrete}
    (absent : s.concreteSubs.find concrete.key = none) :
    ensureConcreteSubscription s concrete =
      ({ s with
        concreteSubs := s.concreteSubs.add concrete.key (generatedId s.nextSubId) absent
        nextSubId := s.nextSubId + 1 }, generatedId s.nextSubId, true) := by
  unfold ensureConcreteSubscription
  split
  · next other found =>
    rw [absent] at found
    cases found
  · rfl

inductive Moved (parse : Bytes → Except Exc Value) (port : UInt16) (m : Machine) :
    Label → Machine → Prop
  | line {payload : Bytes} {handled : Handled} (reading : m.io = .reading)
      (isOpen : m.session.isOpen = true)
      (done : handleLine parse port m.session payload = handled) :
      Moved parse port m (.line payload) { m with
        session := handled.session
        io := .replying payload handled.accepted handled.lines handled.closes
        events := m.events ++ if handled.accepted then [.handled payload] else [] }
  | post {payload : Bytes} {accepted : Bool} {line : Line} {rest : List Line} {closes : Bool}
      (replying : m.io = .replying payload accepted (line :: rest) closes) :
      Moved parse port m .reply
        { m.sendLine .io line with io := .replying payload accepted rest closes }
  | returned {payload : Bytes} {accepted closes : Bool}
      (replying : m.io = .replying payload accepted [] closes) :
      Moved parse port m .reply { m with
        session := { m.session with isOpen := m.session.isOpen && !closes }
        io := .reading
        events := m.events ++ if accepted then [.returned payload] else [] }
  | disconnect (reading : m.io = .reading) :
      Moved parse port m .disconnect { m with session := { m.session with isOpen := false } }
  | arrive {sample : Sample} (idle : m.monitor = .idle) (isOpen : m.session.isOpen = true) :
      Moved parse port m (.arrive sample) { m with monitor := .visit sample }
  | snapshot {sample : Sample} {subs : List StandardSub} (visits : m.monitor = .visit sample)
      (order : subs.Perm m.session.standardSubs.values) :
      Moved parse port m (.snapshot subs)
        { m with monitor := .standard sample subs m.session.xsubs }
  | standardHit {sample : Sample} {sub : StandardSub} {rest : List StandardSub}
      {xsubs : List XSub} (looping : m.monitor = .standard sample (sub :: rest) xsubs) :
      Moved parse port m .monitor
        { m.sendLine .monitor (.msg none sub.subscriptionId sample.json) with
          monitor := .standard sample rest xsubs }
  | standardMiss {sample : Sample} {sub : StandardSub} {rest : List StandardSub}
      {xsubs : List XSub} (looping : m.monitor = .standard sample (sub :: rest) xsubs) :
      Moved parse port m .monitor { m with monitor := .standard sample rest xsubs }
  | standardEnd {sample : Sample} {xsubs : List XSub}
      (looping : m.monitor = .standard sample [] xsubs) :
      Moved parse port m .monitor { m with monitor := .wildcard sample xsubs }
  | known {sample : Sample} {xsub : XSub} {rest : List XSub} {subId : Bytes}
      (looping : m.monitor = .wildcard sample (xsub :: rest)) (hit : sample.matches xsub = true)
      (found : m.session.concreteSubs.find (sample.concrete xsub.streamId).key = some subId) :
      Moved parse port m .monitor
        { m with monitor := .message sample xsub.streamId subId rest }
  | generated {sample : Sample} {xsub : XSub} {rest : List XSub}
      (looping : m.monitor = .wildcard sample (xsub :: rest)) (hit : sample.matches xsub = true)
      (absent : m.session.concreteSubs.find (sample.concrete xsub.streamId).key = none) :
      Moved parse port m .monitor { m with
        session := { m.session with
          concreteSubs := m.session.concreteSubs.add (sample.concrete xsub.streamId).key
            (generatedId m.session.nextSubId) absent
          nextSubId := m.session.nextSubId + 1 }
        monitor := .announce sample xsub.streamId (generatedId m.session.nextSubId) rest
        events := m.events ++
          [.generated (sample.concrete xsub.streamId) (generatedId m.session.nextSubId)] }
  | miss {sample : Sample} {xsub : XSub} {rest : List XSub}
      (looping : m.monitor = .wildcard sample (xsub :: rest)) (no : sample.matches xsub = false) :
      Moved parse port m .monitor { m with monitor := .wildcard sample rest }
  | wildcardEnd {sample : Sample} (looping : m.monitor = .wildcard sample []) :
      Moved parse port m .monitor { m with monitor := .idle }
  | announce {sample : Sample} {streamId subId : Bytes} {rest : List XSub}
      (owed : m.monitor = .announce sample streamId subId rest) :
      Moved parse port m .monitor
        { m.sendLine .monitor (.xsubInfo (sample.concrete streamId) subId) with
          monitor := .message sample streamId subId rest }
  | message {sample : Sample} {streamId subId : Bytes} {rest : List XSub}
      (owed : m.monitor = .message sample streamId subId rest) :
      Moved parse port m .monitor
        { m.sendLine .monitor (.msg (some (sample.concrete streamId)) subId sample.json) with
          monitor := .wildcard sample rest }

section Inversion

variable {parse : Bytes → Except Exc Value} {port : UInt16} {m next : Machine}

theorem moved_monitor (taken : monitorStep m = some next) :
    Moved parse port m .monitor next := by
  unfold monitorStep at taken
  split at taken
  · cases taken
  · cases taken
  · next sample sub rest xsubs looping =>
    injection taken with same
    rw [← same]
    split
    · exact .standardHit looping
    · exact .standardMiss looping
  · next sample xsubs looping =>
    injection taken with same
    rw [← same]
    exact .standardEnd looping
  · next sample xsub rest looping =>
    split at taken
    · next hit =>
      injection taken with same
      rw [← same]
      unfold ensureStep
      cases found : m.session.concreteSubs.find (sample.concrete xsub.streamId).key with
      | some subId =>
          rw [ensure_known found]
          exact .known looping hit found
      | none =>
          rw [ensure_new found]
          exact .generated looping hit found
    · next no =>
      injection taken with same
      rw [← same]
      exact .miss looping (eq_false_of_ne_true no)
  · next looping =>
    injection taken with same
    rw [← same]
    exact .wildcardEnd looping
  · next sample streamId subId rest owed =>
    injection taken with same
    rw [← same]
    exact .announce owed
  · next sample streamId subId rest owed =>
    injection taken with same
    rw [← same]
    exact .message owed

theorem step_moved {label : Label} (taken : step parse port m label = some next) :
    Moved parse port m label next := by
  cases label with
  | line payload =>
      simp only [step, lineStep] at taken
      split at taken
      · next reading =>
        split at taken
        · next isOpen =>
          injection taken with same
          rw [← same]
          exact .line reading isOpen rfl
        · cases taken
      · cases taken
  | reply =>
      simp only [step, replyStep] at taken
      split at taken
      · cases taken
      · next replying =>
        injection taken with same
        rw [← same]
        exact .post replying
      · next replying =>
        injection taken with same
        rw [← same]
        exact .returned replying
  | disconnect =>
      simp only [step] at taken
      split at taken
      · next reading =>
        injection taken with same
        rw [← same]
        exact .disconnect reading
      · cases taken
  | arrive sample =>
      simp only [step] at taken
      split at taken
      · next idle =>
        split at taken
        · next isOpen =>
          injection taken with same
          rw [← same]
          exact .arrive idle isOpen
        · cases taken
      · cases taken
  | snapshot subs =>
      simp only [step] at taken
      split at taken
      · next visits =>
        split at taken
        · next order =>
          injection taken with same
          rw [← same]
          exact .snapshot visits order
        · cases taken
      · cases taken
  | monitor => exact moved_monitor taken

theorem Moved.grows {label : Label} (moved : Moved parse port m label next) :
    m.events <+: next.events := by
  cases moved with
  | line => exact List.prefix_append _ _
  | post => exact List.prefix_append _ _
  | returned => exact List.prefix_append _ _
  | disconnect => exact List.prefix_rfl
  | arrive => exact List.prefix_rfl
  | snapshot => exact List.prefix_rfl
  | standardHit => exact List.prefix_append _ _
  | standardMiss => exact List.prefix_rfl
  | standardEnd => exact List.prefix_rfl
  | known => exact List.prefix_rfl
  | generated => exact List.prefix_append _ _
  | miss => exact List.prefix_rfl
  | wildcardEnd => exact List.prefix_rfl
  | announce => exact List.prefix_append _ _
  | message => exact List.prefix_append _ _

theorem Moved.stays_closed {label : Label} (moved : Moved parse port m label next)
    (closed : m.session.isOpen = false) : next.session.isOpen = false := by
  cases moved with
  | line reading isOpen done =>
      rw [closed] at isOpen
      cases isOpen
  | post => exact closed
  | returned => simp only [closed, Bool.false_and]
  | disconnect => rfl
  | arrive => exact closed
  | snapshot => exact closed
  | standardHit => exact closed
  | standardMiss => exact closed
  | standardEnd => exact closed
  | known => exact closed
  | generated => exact closed
  | miss => exact closed
  | wildcardEnd => exact closed
  | announce => exact closed
  | message => exact closed

end Inversion

end Arcal.Lacal
