import Arcal.Lacal.Registry

/-! How a conversation starts: behind a handshake that names the subprotocol, with `INFO` or
with the one error that ends it, whatever the monitor does in the meantime. -/

namespace Arcal.Lacal

open JsonText (Value)
open Transition

def Event.sent : Event → Option Line
  | .post _ line => some line
  | _ => none

def Machine.sent (m : Machine) : List Line := m.events.filterMap Event.sent

theorem sent_append (m : Machine) (events : List Event) :
    ({ m with events := m.events ++ events } : Machine).sent =
      m.sent ++ events.filterMap Event.sent := List.filterMap_append

theorem sendLine_sent (m : Machine) (thread : Thread) (line : Line) :
    (m.sendLine thread line).sent = m.sent ++ if m.session.isOpen then [line] else [] := by
  unfold Machine.sendLine
  rw [sent_append]
  cases m.session.isOpen <;> rfl

def MonitorPc.empty : MonitorPc → Bool
  | .idle => true
  | .visit _ => true
  | .standard _ subs xsubs => subs.isEmpty && xsubs.isEmpty
  | .wildcard _ xsubs => xsubs.isEmpty
  | .announce .. => false
  | .message .. => false

structure Machine.Quiet (m : Machine) : Prop where
  xsubs : m.session.xsubs = []
  standardSubs : m.session.standardSubs.values = []
  copied : m.monitor.empty = true

def Label.thread : Label → Thread
  | .line _ => .io
  | .reply => .io
  | .disconnect => .io
  | .arrive _ => .monitor
  | .snapshot _ => .monitor
  | .monitor => .monitor

section Sessions

variable {parse : Bytes → Except Exc Value} {port : UInt16} {m next : Machine}

theorem Machine.Quiet.step {label : Label} (quiet : m.Quiet)
    (moved : Moved parse port m label next) (isMonitor : label.thread = .monitor) :
    next.Quiet ∧ next.session = m.session ∧ next.io = m.io ∧ next.events = m.events := by
  cases moved with
  | line => cases isMonitor
  | post => cases isMonitor
  | returned => cases isMonitor
  | disconnect => cases isMonitor
  | arrive => exact ⟨⟨quiet.xsubs, quiet.standardSubs, rfl⟩, rfl, rfl, rfl⟩
  | snapshot visits order =>
      rw [quiet.standardSubs] at order
      rw [order.eq_nil, quiet.xsubs]
      exact ⟨⟨quiet.xsubs, quiet.standardSubs, rfl⟩, rfl, rfl, rfl⟩
  | standardHit looping =>
      have copied := quiet.copied
      rw [looping] at copied
      cases copied
  | standardMiss looping =>
      have copied := quiet.copied
      rw [looping] at copied
      cases copied
  | standardEnd looping =>
      have copied := quiet.copied
      rw [looping] at copied
      exact ⟨⟨quiet.xsubs, quiet.standardSubs, by simpa [MonitorPc.empty] using copied⟩,
        rfl, rfl, rfl⟩
  | known looping =>
      have copied := quiet.copied
      rw [looping] at copied
      cases copied
  | generated looping =>
      have copied := quiet.copied
      rw [looping] at copied
      cases copied
  | miss looping =>
      have copied := quiet.copied
      rw [looping] at copied
      cases copied
  | wildcardEnd looping => exact ⟨⟨quiet.xsubs, quiet.standardSubs, rfl⟩, rfl, rfl, rfl⟩
  | announce owed =>
      have copied := quiet.copied
      rw [owed] at copied
      cases copied
  | message owed =>
      have copied := quiet.copied
      rw [owed] at copied
      cases copied

/-- What a session that has not accepted an `INIT` does about a line. -/
inductive FirstAnswer (s : Session) : Handled → Prop
  | blank : FirstAnswer s ⟨s, [], false⟩
  | refused {s' : Session} {detail : Bytes} (same : s'.subscriptions = s.subscriptions)
      (sameOpen : s'.isOpen = s.isOpen) : FirstAnswer s ⟨s', [.err detail], true⟩
  | greeted {s' : Session} {info : Bytes} {rest : List Line}
      (same : s'.subscriptions = s.subscriptions) (sameOpen : s'.isOpen = s.isOpen) :
      FirstAnswer s ⟨s', .info info :: rest, false⟩

theorem handleInit_first {s : Session} (rest : Bytes) :
    FirstAnswer s (handleInit parse port s rest) := by
  fun_cases handleInit parse port s rest
  all_goals first
    | exact .refused rfl rfl
    | exact .greeted rfl rfl

theorem handleLine_first {s : Session} (fresh : s.initialized = false) (payload : Bytes) :
    FirstAnswer s (handleLine parse port s payload) := by
  unfold handleLine
  split
  · exact .blank
  · next op rest field =>
    split
    · exact handleInit_first rest
    · exact .refused rfl rfl

inductive Opening (m : Machine) : Prop
  | waiting (fresh : m.session.initialized = false) (silent : m.sent = []) (quiet : m.Quiet)
      (io : m.io = .reading ∨ ∃ payload accepted, m.io = .replying payload accepted [] false)
  | refused {payload detail : Bytes} {accepted : Bool}
      (io : m.io = .replying payload accepted [.err detail] true)
      (isOpen : m.session.isOpen = true) (silent : m.sent = []) (quiet : m.Quiet)
  | dismissed {detail : Bytes} (told : m.sent = [.err detail]) (quiet : m.Quiet)
      (io : (∃ payload accepted, m.io = .replying payload accepted [] true) ∨
        m.session.isOpen = false)
  | greeting {payload info : Bytes} {accepted : Bool} {rest : List Line}
      (io : m.io = .replying payload accepted (.info info :: rest) false)
      (isOpen : m.session.isOpen = true) (silent : m.sent = []) (quiet : m.Quiet)
  | greeted {info : Bytes} {rest : List Line} (told : m.sent = .info info :: rest)

theorem Opening.of_same (opening : Opening m) (quiet : m.Quiet → next.Quiet)
    (session : next.session = m.session) (io : next.io = m.io) (events : next.events = m.events) :
    Opening next := by
  have sent : next.sent = m.sent := by rw [Machine.sent, events, Machine.sent]
  cases opening with
  | waiting fresh silent wasQuiet wasIo =>
      exact .waiting (by rw [session, fresh]) (sent.trans silent) (quiet wasQuiet)
        (by rw [io]; exact wasIo)
  | refused wasIo isOpen silent wasQuiet =>
      exact .refused (io.trans wasIo) (by rw [session, isOpen]) (sent.trans silent)
        (quiet wasQuiet)
  | dismissed told wasQuiet wasIo =>
      exact .dismissed (sent.trans told) (quiet wasQuiet) (by rw [io, session]; exact wasIo)
  | greeting wasIo isOpen silent wasQuiet =>
      exact .greeting (io.trans wasIo) (by rw [session, isOpen]) (sent.trans silent)
        (quiet wasQuiet)
  | greeted told => exact .greeted (sent.trans told)

theorem Moved.sent_grows {label : Label} (moved : Moved parse port m label next) :
    m.sent <+: next.sent := by
  obtain ⟨more, same⟩ := moved.grows
  rw [Machine.sent, Machine.sent, ← same, List.filterMap_append]
  exact List.prefix_append _ _

theorem Opening.stays_greeted {info : Bytes} {rest : List Line} (told : m.sent = .info info :: rest)
    (grows : m.sent <+: next.sent) : Opening next := by
  obtain ⟨more, same⟩ := grows
  rw [told, List.cons_append] at same
  exact .greeted same.symm

theorem Machine.Quiet.of_subscriptions (quiet : m.Quiet)
    (same : next.session.subscriptions = m.session.subscriptions)
    (monitor : next.monitor = m.monitor) : next.Quiet := by
  obtain ⟨xsubs, standardSubs, _, _⟩ := Session.subscriptions_parts same
  exact ⟨by rw [xsubs, quiet.xsubs], by rw [standardSubs, quiet.standardSubs],
    by rw [monitor, quiet.copied]⟩

theorem Opening.line {payload : Bytes} (opening : Opening m) (reading : m.io = .reading)
    (isOpen : m.session.isOpen = true) :
    Opening { m with
      session := (handleLine parse port m.session payload).session
      io := .replying payload (handleLine parse port m.session payload).accepted
        (handleLine parse port m.session payload).lines
        (handleLine parse port m.session payload).closes
      events := m.events ++
        if (handleLine parse port m.session payload).accepted then [.handled payload] else [] } := by
  have moved : Moved parse port m (.line payload) _ := .line reading isOpen rfl
  cases opening with
  | waiting fresh silent quiet io =>
      have same : ∀ more : Bool, m.sent ++
          (if more then [Event.handled payload] else []).filterMap Event.sent = [] := by
        intro more
        rw [silent]
        cases more <;> rfl
      have first : FirstAnswer m.session (handleLine parse port m.session payload) :=
        handleLine_first fresh payload
      generalize handleLine parse port m.session payload = handled at first moved
      cases first with
      | blank =>
          exact .waiting fresh ((sent_append m _).trans (same _))
            (quiet.of_subscriptions rfl rfl) (.inr ⟨_, _, rfl⟩)
      | refused subscriptions sameOpen =>
          exact .refused rfl (sameOpen.trans isOpen) ((sent_append m _).trans (same _))
            (quiet.of_subscriptions subscriptions rfl)
      | greeted subscriptions sameOpen =>
          exact .greeting rfl (sameOpen.trans isOpen) ((sent_append m _).trans (same _))
            (quiet.of_subscriptions subscriptions rfl)
  | refused io =>
      rw [reading] at io
      cases io
  | dismissed told quiet io =>
      rcases io with ⟨_, _, io⟩ | closed
      · rw [reading] at io
        cases io
      · rw [isOpen] at closed
        cases closed
  | greeting io =>
      rw [reading] at io
      cases io
  | greeted told => exact .stays_greeted told moved.sent_grows

theorem Opening.post {payload : Bytes} {accepted closes : Bool} {line : Line} {rest : List Line}
    (opening : Opening m) (replying : m.io = .replying payload accepted (line :: rest) closes) :
    Opening { m.sendLine .io line with io := .replying payload accepted rest closes } := by
  have sent := sendLine_sent m .io line
  cases opening with
  | waiting fresh silent quiet io =>
      rw [replying] at io
      rcases io with io | ⟨_, _, io⟩
      · cases io
      · cases io
  | refused io isOpen silent quiet =>
      rw [replying] at io
      cases io
      rw [silent, if_pos isOpen] at sent
      exact .dismissed sent (quiet.of_subscriptions rfl rfl) (.inl ⟨_, _, rfl⟩)
  | dismissed told quiet io =>
      rw [replying] at io
      rcases io with ⟨_, _, io⟩ | closed
      · cases io
      · rw [told, closed] at sent
        exact .dismissed sent (quiet.of_subscriptions rfl rfl) (.inr closed)
  | greeting io isOpen silent quiet =>
      rw [replying] at io
      cases io
      rw [silent, if_pos isOpen] at sent
      exact .greeted sent
  | greeted told => exact .stays_greeted told ⟨_, sent.symm⟩

theorem Opening.returned {payload : Bytes} {accepted closes : Bool}
    (opening : Opening m) (replying : m.io = .replying payload accepted [] closes) :
    Opening { m with
      session := { m.session with isOpen := m.session.isOpen && !closes }
      io := .reading
      events := m.events ++ if accepted then [.returned payload] else [] } := by
  have unsaid : ∀ more : Bool,
      (if more then [Event.returned payload] else []).filterMap Event.sent = [] := by
    intro more
    cases more <;> rfl
  have sent := sent_append m (if accepted then [.returned payload] else [])
  rw [unsaid, List.append_nil] at sent
  cases opening with
  | waiting fresh silent quiet io =>
      exact .waiting fresh (sent.trans silent) (quiet.of_subscriptions rfl rfl) (.inl rfl)
  | refused io =>
      rw [replying] at io
      cases io
  | dismissed told quiet io =>
      refine .dismissed (sent.trans told) (quiet.of_subscriptions rfl rfl) (.inr ?_)
      rw [replying] at io
      rcases io with ⟨_, _, io⟩ | closed
      · cases io
        simp
      · simp [closed]
  | greeting io =>
      rw [replying] at io
      cases io
  | greeted told => exact .greeted (sent.trans told)

theorem Opening.disconnect (opening : Opening m) (reading : m.io = .reading) :
    Opening { m with session := { m.session with isOpen := false } } := by
  cases opening with
  | waiting fresh silent quiet io =>
      exact .waiting fresh silent (quiet.of_subscriptions rfl rfl) io
  | refused io =>
      rw [reading] at io
      cases io
  | dismissed told quiet io =>
      exact .dismissed told (quiet.of_subscriptions rfl rfl) (.inr rfl)
  | greeting io =>
      rw [reading] at io
      cases io
  | greeted told => exact .greeted told

/-- The monitor says nothing before the conversation has started. -/
theorem Opening.monitor {label : Label} (opening : Opening m)
    (moved : Moved parse port m label next) (isMonitor : label.thread = .monitor) :
    Opening next ∧ (m.sent = [] → next.sent = []) := by
  have silently : m.Quiet → Opening next ∧ (m.sent = [] → next.sent = []) := by
    intro quiet
    obtain ⟨stays, session, io, events⟩ := quiet.step moved isMonitor
    refine ⟨opening.of_same (fun _ => stays) session io events, ?_⟩
    intro silent
    rw [Machine.sent, events]
    exact silent
  cases opening with
  | waiting fresh silent quiet io => exact silently quiet
  | refused io isOpen silent quiet => exact silently quiet
  | dismissed told quiet io => exact silently quiet
  | greeting io isOpen silent quiet => exact silently quiet
  | greeted told =>
      refine ⟨.stays_greeted told moved.sent_grows, ?_⟩
      intro silent
      rw [told] at silent
      cases silent

theorem Opening.step {label : Label} (opening : Opening m)
    (moved : Moved parse port m label next) : Opening next := by
  by_cases isMonitor : label.thread = .monitor
  · exact (opening.monitor moved isMonitor).1
  · cases moved with
    | line reading isOpen done =>
        subst done
        exact opening.line reading isOpen
    | post replying => exact opening.post replying
    | returned replying => exact opening.returned replying
    | disconnect reading => exact opening.disconnect reading
    | _ => exact absurd rfl isMonitor

end Sessions

def Client.speaksOwp (c : Client) : Bool := headerContainsToken c.protocol (utf8 "owp")

/-- What was sent to a client, was sent behind its handshake. -/
structure Client.Begun (c : Client) : Prop where
  opening : Opening c.machine
  named : c.stage = .acceptWebSocket ∨ c.stage = .readNext ∨ c.machine.sent ≠ [] →
    c.speaksOwp = true
  upgraded : c.machine.sent ≠ [] → c.stage = .readNext ∨ c.stage = .ended

section Clients

variable {parse : Bytes → Except Exc Value} {port : UInt16}

theorem opening_start : Opening {} := .waiting rfl rfl ⟨rfl, rfl, rfl⟩ (.inl rfl)

theorem begun_start : Client.Begun {} := by
  refine ⟨opening_start, ?_, fun spoken => absurd rfl spoken⟩
  intro past
  rcases past with past | past | spoken
  · cases past
  · cases past
  · exact absurd rfl spoken

theorem Client.Begun.read {c : Client} (begun : c.Begun) (there : c.stage = .readNext)
    {label : Label} {machine : Machine} (moved : Lacal.Moved parse port c.machine label machine) :
    Client.Begun { c with machine, stage := machine.stageAfter } := by
  refine ⟨begun.opening.step moved, fun _ => begun.named (.inr (.inl there)), ?_⟩
  intro _
  unfold Machine.stageAfter
  split
  · exact .inr rfl
  · exact .inl rfl

theorem Client.Begun.step {c c' : Client} {input : Input} (begun : c.Begun)
    (moved : Client.Moved parse port c input c') : c'.Begun := by
  cases moved with
  | request there =>
      have silent : c.machine.sent = [] := by
        by_contra spoken
        rcases begun.upgraded spoken with past | past
        · rw [there] at past
          cases past
        · rw [there] at past
          cases past
      refine ⟨begun.opening, ?_, fun spoken => absurd silent spoken⟩
      intro past
      simp only [silent, ne_eq, not_true_eq_false, or_false] at past
      change headerContainsToken _ (utf8 "owp") = true
      by_contra unnamed
      rw [if_neg unnamed] at past
      rcases past with past | past
      · cases past
      · cases past
  | upgraded there => exact ⟨begun.opening, fun _ => begun.named (.inl there), fun _ => .inl rfl⟩
  | binary there =>
      refine ⟨begun.opening, fun _ => begun.named (.inr (.inl there)), ?_⟩
      intro _
      simp only [Machine.stageAfter]
      split
      · exact .inr rfl
      · exact .inl rfl
  | lost moves reading after =>
      refine ⟨begun.opening.disconnect reading, ?_, ?_⟩
      · intro past
        rcases past with past | past | spoken
        · rcases after with finished | ⟨_, finished | finished⟩
          · rw [finished] at past
            cases past
          · rw [finished] at past
            cases past
          · rw [finished] at past
            cases past
        · rcases after with finished | ⟨same, _⟩
          · rw [finished] at past
            cases past
          · exact begun.named (.inr (.inl (same.symm.trans past)))
        · exact begun.named (.inr (.inr spoken))
      · intro _
        rcases after with finished | ⟨_, finished⟩
        · exact .inr finished
        · exact finished
  | text there taken => exact begun.read there (Lacal.step_moved taken)
  | reply there taken => exact begun.read there (Lacal.step_moved taken)

theorem Client.Begun.served {c : Client} (begun : c.Begun) {label : Label} {machine : Machine}
    (moved : Lacal.Moved parse port c.machine label machine) (isMonitor : label.thread = .monitor) :
    Client.Begun { c with machine } := by
  obtain ⟨opening, silently⟩ := begun.opening.monitor moved isMonitor
  have before : machine.sent ≠ [] → c.machine.sent ≠ [] := fun spoken silent =>
    spoken (silently silent)
  refine ⟨opening, ?_, fun spoken => begun.upgraded (before spoken)⟩
  intro past
  apply begun.named
  rcases past with past | past | spoken
  · exact .inl past
  · exact .inr (.inl past)
  · exact .inr (.inr (before spoken))

end Clients

namespace Server

section Runs

variable {parse : Bytes → Except Exc Value} {port : UInt16} {s next : Server}

theorem begun_setClient (begun : ∀ id, (s.clients id).Begun) {id : Nat} {c : Client}
    (changed : c.Begun) (other : Nat) : ((s.setClient id c).clients other).Begun := by
  by_cases same : other = id
  · rw [same, setClient_self]
    exact changed
  · rw [setClient_other s c same]
    exact begun other

theorem begun_step {label : Label} (kept : Kept s) (begun : ∀ id, (s.clients id).Begun)
    (moved : Moved parse port s label next) (id : Nat) : (next.clients id).Begun := by
  cases moved with
  | accept => exact begun id
  | @input other input c known taken =>
      exact begun_setClient begun ((begun other).step (Client.step_moved taken)) id
  | @destroy other finished =>
      have stays : Client.Begun { s.clients other with gone := true } :=
        ⟨(begun other).opening, (begun other).named, (begun other).upgraded⟩
      exact begun_setClient begun stays id
  | @deliver sample idle =>
      simp only [visit]
      split
      · next inside =>
        have arrives : Lacal.Moved parse port (s.clients id).machine (.arrive sample) _ :=
          .arrive (kept.all_idle idle id) (kept.mem_snapshot_iff.mp inside).2
        exact (begun id).served arrives rfl
      · exact begun id
  | @copySubs other subs machine turn taken =>
      exact begun_setClient begun ((begun other).served (Lacal.step_moved taken) rfl) id
  | @serve other machine turn busy taken =>
      exact begun_setClient begun ((begun other).served (Lacal.step_moved taken) rfl) id
  | next => exact begun id
  | removeClosed => exact begun id

structure Sound (s : Server) : Prop where
  kept : Kept s
  begun : ∀ id, (s.clients id).Begun

theorem sound_start : Sound {} := ⟨kept_start, fun _ => begun_start⟩

theorem Sound.step {label : Label} (sound : Sound s) (moved : Moved parse port s label next) :
    Sound next := ⟨sound.kept.step moved, begun_step sound.kept sound.begun moved⟩

theorem sound_run {labels : List Label} (whole : run (step parse port) {} labels = some s) :
    Sound s :=
  run_invariant (fun _ _ _ sound taken => sound.step (step_moved taken)) sound_start whole

/-- Before its handshake is over a client reads no line and is sent none. -/
structure Unshaken (c : Client) : Prop where
  stage : c.stage ≠ .readNext
  silent : c.machine.sent = []

theorem Unshaken.step {c c' : Client} {input : Input} (unshaken : Unshaken c)
    (other : input ≠ .upgraded) (moved : Client.Moved parse port c input c') : Unshaken c' := by
  cases moved with
  | request there =>
      refine ⟨?_, unshaken.silent⟩
      simp only
      split
      · exact Stage.noConfusion
      · exact Stage.noConfusion
  | upgraded => exact absurd rfl other
  | binary there => exact absurd there unshaken.stage
  | lost moves reading after =>
      refine ⟨?_, unshaken.silent⟩
      intro reads
      rcases after with finished | ⟨same, _⟩
      · rw [finished] at reads
        cases reads
      · exact unshaken.stage (same.symm.trans reads)
  | text there => exact absurd there unshaken.stage
  | reply there => exact absurd there unshaken.stage

theorem unshaken_setClient {id other : Nat} {c : Client} (unshaken : Unshaken (s.clients id))
    (changed : other = id → Unshaken c) : Unshaken ((s.setClient other c).clients id) := by
  by_cases same : other = id
  · rw [← same, setClient_self]
    exact changed same
  · rw [setClient_other s c (Ne.symm same)]
    exact unshaken

theorem unshaken_served {id other : Nat} {label : Lacal.Label} {machine : Machine}
    (begun : ∀ id, (s.clients id).Begun) (unshaken : Unshaken (s.clients id))
    (taken : Lacal.step parse port (s.clients other).machine label = some machine)
    (isMonitor : label.thread = .monitor) :
    Unshaken ((s.setClient other { s.clients other with machine }).clients id) := by
  apply unshaken_setClient unshaken
  intro same
  subst same
  have silently := ((begun other).opening.monitor (Lacal.step_moved taken) isMonitor).2
  exact ⟨unshaken.stage, silently unshaken.silent⟩

theorem unshaken_step {label : Label} {id : Nat} (begun : ∀ id, (s.clients id).Begun)
    (unshaken : Unshaken (s.clients id)) (other : label ≠ .input id .upgraded)
    (moved : Moved parse port s label next) : Unshaken (next.clients id) := by
  cases moved with
  | accept => exact unshaken
  | @input whose input c known taken =>
      apply unshaken_setClient unshaken
      intro same
      subst same
      exact unshaken.step (fun isThat => other (by rw [isThat])) (Client.step_moved taken)
  | @destroy whose finished =>
      apply unshaken_setClient unshaken
      intro same
      subst same
      exact ⟨unshaken.stage, unshaken.silent⟩
  | @deliver sample idle =>
      simp only [visit]
      split
      · exact ⟨unshaken.stage, unshaken.silent⟩
      · exact unshaken
  | copySubs turn taken => exact unshaken_served begun unshaken taken rfl
  | serve turn busy taken => exact unshaken_served begun unshaken taken rfl
  | next => exact unshaken
  | removeClosed => exact unshaken

theorem unshaken_run {labels : List Label} {id : Nat}
    (whole : run (step parse port) {} labels = some s)
    (never : Label.input id .upgraded ∉ labels) : (s.clients id).machine.sent = [] := by
  have keeps : ∀ (s : Server) (label : Label) (next : Server),
      Sound s ∧ Unshaken (s.clients id) → label ≠ .input id .upgraded →
        step parse port s label = some next → Sound next ∧ Unshaken (next.clients id) := by
    intro s label next given other taken
    have moved := step_moved taken
    exact ⟨given.1.step moved, unshaken_step given.1.begun given.2 other moved⟩
  have met : Along (step parse port) (fun _ label => label ≠ .input id .upgraded) {} labels := by
    apply along_of_forall
    intro label inside same
    rw [same] at inside
    exact never inside
  exact (run_keeps keeps ⟨sound_start, Stage.noConfusion, rfl⟩ met whole).2.silent

/-- What a client of the server is sent begins with `INFO`, or is one error and nothing else;
the first line is behind a handshake that is done and names the subprotocol. -/
theorem first_words {labels : List Label} (whole : run (step parse port) {} labels = some s)
    {id : Nat} {first : Line} {rest : List Line}
    (lines : (s.clients id).machine.sent = first :: rest) :
    ((∃ info, first = .info info) ∨ (∃ detail, first = .err detail) ∧ rest = []) ∧
      (s.clients id).speaksOwp = true ∧ .input id .upgraded ∈ labels := by
  have begun := (sound_run whole).begun id
  have spoken : (s.clients id).machine.sent ≠ [] := by
    rw [lines]
    exact List.cons_ne_nil _ _
  refine ⟨?_, begun.named (.inr (.inr spoken)), ?_⟩
  · cases begun.opening with
    | waiting fresh silent => exact absurd silent spoken
    | refused io isOpen silent => exact absurd silent spoken
    | dismissed told =>
        rw [lines] at told
        obtain ⟨isErr, nothing⟩ := List.cons.inj told
        exact .inr ⟨⟨_, isErr⟩, nothing⟩
    | greeting io isOpen silent => exact absurd silent spoken
    | greeted told =>
        rw [lines] at told
        exact .inl ⟨_, (List.cons.inj told).1⟩
  · by_contra never
    exact spoken (unshaken_run whole never)

theorem first_words_refused :
    ∃ s first rest, run (step refuseAll 8766) {}
      [.accept, .input 0 (.request (utf8 "owp")), .input 0 .upgraded,
        .input 0 (.text (utf8 "SUB")), .input 0 .reply] = some s ∧
    (s.clients 0).machine.sent = first :: rest ∧
    ((∃ info, first = .info info) ∨ (∃ detail, first = .err detail) ∧ rest = []) := by
  have told : (run (step refuseAll 8766) {}
      [.accept, .input 0 (.request (utf8 "owp")), .input 0 .upgraded,
        .input 0 (.text (utf8 "SUB")), .input 0 .reply]).map
      (fun s => (s.clients 0).machine.sent) =
        some [.err (utf8 "Illegal-State INIT must be first operation")] := by decide
  obtain ⟨s, whole, sent⟩ := Option.map_eq_some_iff.mp told
  exact ⟨s, _, _, whole, sent, (first_words whole sent).1⟩

end Runs

end Server

end Arcal.Lacal
