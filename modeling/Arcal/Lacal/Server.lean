import Arcal.Lacal.Machine

/-! The whole bridge: connections that are accepted and go through their handshake, the one
I/O thread that runs every client's handlers, and the monitor thread that takes each sample to
the clients it finds in the registry. What happens to one client is `Machine`'s. -/

namespace Arcal.Lacal

open JsonText (Value)
open Transition

inductive Stage
  | readHttpRequest
  | refuse
  | acceptWebSocket
  | readNext
  | ended
  deriving DecidableEq

/-- A `Client`; `protocol` is a field of its `request_`. It is gone when no handler is left
that holds it. -/
structure Client where
  machine : Machine := {}
  stage : Stage := .readHttpRequest
  protocol : Bytes := []
  gone : Bool := false

namespace Client

def isOpen (c : Client) : Bool := c.machine.session.isOpen

/-- What `weak.lock()` and `open` tell of it. -/
def live (c : Client) : Bool := !c.gone && c.isOpen

end Client

/-- What the I/O thread does about a connection: the completions of its operations, and the
lines that a handler goes on to send. -/
inductive Input
  | request (protocol : Bytes)
  | requestError
  | refused
  | upgraded
  | upgradeError
  | text (payload : Bytes)
  | binary
  | reply
  | readError
  | writeError

/-- What the input is for the session. -/
def Input.moves : Input → List Label
  | .request _ => []
  | .requestError => [.disconnect]
  | .refused => [.disconnect]
  | .upgraded => []
  | .upgradeError => [.disconnect]
  | .text payload => [.line payload]
  | .binary => []
  | .reply => [.reply]
  | .readError => [.disconnect]
  | .writeError => [.disconnect]

def IoPc.isReading : IoPc → Bool
  | .reading => true
  | .replying .. => false

/-- Behind a line that was read: the next one is, if the client is open and no reply is
left. -/
def Machine.stageAfter (m : Machine) : Stage :=
  if m.io.isReading && !m.session.isOpen then .ended else .readNext

section Steps

variable (parse : Bytes → Except Exc Value) (port : UInt16)

/-- The session takes its step in one stage of the connection, and the next stage begins. -/
def Client.move (c : Client) (during : Stage) (label : Label) (after : Machine → Stage) :
    Option Client :=
  if c.stage = during then
    (step parse port c.machine label).map fun machine =>
      { c with machine, stage := after machine }
  else none

def Client.step (c : Client) : Input → Option Client
  | .request protocol =>
      if c.stage = .readHttpRequest then
        some { c with
          protocol
          stage := if headerContainsToken protocol (utf8 "owp") then .acceptWebSocket
            else .refuse }
      else none
  | .requestError => c.move parse port .readHttpRequest .disconnect fun _ => .ended
  | .refused => c.move parse port .refuse .disconnect fun _ => .ended
  | .upgraded =>
      if c.stage = .acceptWebSocket then some { c with stage := .readNext } else none
  | .upgradeError => c.move parse port .acceptWebSocket .disconnect fun _ => .ended
  | .text payload => c.move parse port .readNext (.line payload) Machine.stageAfter
  | .binary =>
      if c.stage = .readNext ∧ c.machine.io.isReading then
        some { c with stage := c.machine.stageAfter }
      else none
  | .reply => c.move parse port .readNext .reply Machine.stageAfter
  | .readError => c.move parse port .readNext .disconnect fun _ => .ended
  -- A write can still be outstanding when nothing more is read. Once one has failed the
  -- pending read is aborted, so `readError` is all that can follow it here.
  | .writeError =>
      if c.stage = .readNext ∨ c.stage = .ended then
        c.move parse port c.stage .disconnect fun _ => c.stage
      else none

end Steps

namespace Client

variable {parse : Bytes → Except Exc Value} {port : UInt16} {c c'' : Client} {input : Input}

theorem move_eq_some {during : Stage} {label : Label} {after : Machine → Stage} :
    c.move parse port during label after = some c' ↔ c.stage = during ∧
      ∃ machine, Lacal.step parse port c.machine label = some machine ∧
        { c with machine, stage := after machine } = c' := by
  unfold move
  split
  · next there => simp [there, Option.map_eq_some_iff]
  · next elsewhere => simp [elsewhere]

/-- The inputs that the session knows nothing of leave it alone; the others are steps of
it. -/
inductive Moved (parse : Bytes → Except Exc Value) (port : UInt16) (c : Client) :
    Input → Client → Prop
  | request {protocol : Bytes} (there : c.stage = .readHttpRequest) :
      Moved parse port c (.request protocol) { c with
        protocol
        stage := if headerContainsToken protocol (utf8 "owp") then .acceptWebSocket else .refuse }
  | upgraded (there : c.stage = .acceptWebSocket) :
      Moved parse port c .upgraded { c with stage := .readNext }
  | binary (there : c.stage = .readNext) :
      Moved parse port c .binary { c with stage := c.machine.stageAfter }
  | lost {input : Input} {stage : Stage} (moves : input.moves = [.disconnect])
      (reading : c.machine.io = .reading)
      (after : stage = .ended ∨ stage = c.stage ∧ (stage = .readNext ∨ stage = .ended)) :
      Moved parse port c input
        { c with machine.session.isOpen := false, stage }
  | text {payload : Bytes} {machine : Machine} (there : c.stage = .readNext)
      (taken : Lacal.step parse port c.machine (.line payload) = some machine) :
      Moved parse port c (.text payload) { c with machine, stage := machine.stageAfter }
  | reply {machine : Machine} (there : c.stage = .readNext)
      (taken : Lacal.step parse port c.machine .reply = some machine) :
      Moved parse port c .reply { c with machine, stage := machine.stageAfter }

theorem lost_of_move {during stage : Stage} (moves : input.moves = [.disconnect])
    (after : stage = .ended ∨ stage = c.stage ∧ (stage = .readNext ∨ stage = .ended))
    (taken : c.move parse port during .disconnect (fun _ => stage) = some c') :
    Moved parse port c input c' := by
  obtain ⟨_, machine, step, same⟩ := move_eq_some.mp taken
  cases step_moved step with
  | disconnect reading =>
      rw [← same]
      exact .lost moves reading after

theorem step_moved (taken : c.step parse port input = some c') : Moved parse port c input c' := by
  cases input with
  | request protocol =>
      simp only [step] at taken
      split at taken
      · next there =>
        injection taken with same
        rw [← same]
        exact .request there
      · cases taken
  | requestError => exact lost_of_move rfl (.inl rfl) taken
  | refused => exact lost_of_move rfl (.inl rfl) taken
  | upgraded =>
      simp only [step] at taken
      split at taken
      · next there =>
        injection taken with same
        rw [← same]
        exact .upgraded there
      · cases taken
  | upgradeError => exact lost_of_move rfl (.inl rfl) taken
  | text payload =>
      obtain ⟨there, machine, step, same⟩ := move_eq_some.mp taken
      rw [← same]
      exact .text there step
  | binary =>
      simp only [step] at taken
      split at taken
      · next there =>
        injection taken with same
        rw [← same]
        exact .binary there.1
      · cases taken
  | reply =>
      obtain ⟨there, machine, step, same⟩ := move_eq_some.mp taken
      rw [← same]
      exact .reply there step
  | readError => exact lost_of_move rfl (.inl rfl) taken
  | writeError =>
      simp only [step] at taken
      split at taken
      · next there => exact lost_of_move rfl (.inr ⟨rfl, there⟩) taken
      · cases taken

theorem Moved.machine (moved : Moved parse port c input c') :
    run (Lacal.step parse port) c.machine input.moves = some c'.machine := by
  cases moved with
  | request => rfl
  | upgraded => rfl
  | binary => rfl
  | lost moves reading =>
      rw [moves]
      simp [run, Lacal.step, reading]
  | text there taken => exact run_cons_eq_some.mpr ⟨_, taken, rfl⟩
  | reply there taken => exact run_cons_eq_some.mpr ⟨_, taken, rfl⟩

end Client

/-- Where `deliver` stands: the clients of its snapshot, and those it has yet to serve. -/
structure Serving where
  held : List Nat
  todo : List Nat

/-- Clients are numbered in the order they are accepted in. -/
structure Server where
  clients : Nat → Client := fun _ => {}
  accepted : Nat := 0
  registry : List Nat := []
  io : Option Nat := none
  serving : Option Serving := none

namespace Server

inductive Label
  | accept
  | input (id : Nat) (input : Input)
  | destroy (id : Nat)
  | deliver (sample : Sample)
  | copySubs (subs : List StandardSub)
  | monitor

def snapshot (s : Server) : List Nat := s.registry.filter fun id => (s.clients id).live

def setClient (s : Server) (id : Nat) (c : Client) : Server :=
  { s with clients := Function.update s.clients id c }

def visit (s : Server) (sample : Sample) (id : Nat) : Client :=
  if id ∈ s.snapshot then { s.clients id with machine.monitor := .visit sample }
  else s.clients id

section Steps

variable (parse : Bytes → Except Exc Value) (port : UInt16)

def serve (s : Server) (id : Nat) (label : Lacal.Label) : Option Server :=
  (Lacal.step parse port (s.clients id).machine label).map fun machine =>
    s.setClient id { s.clients id with machine }

def monitorStep (s : Server) : Option Server :=
  match s.serving with
  | none => none
  | some ⟨held, id :: rest⟩ =>
      match (s.clients id).machine.monitor with
      | .idle => some { s with serving := some ⟨held, rest⟩ }
      | _ => s.serve parse port id .monitor
  -- `removeClosed`
  | some ⟨_, []⟩ => some { s with registry := s.snapshot, serving := none }

def step (s : Server) : Label → Option Server
  | .accept =>
      if s.io = none then
        some { s with accepted := s.accepted + 1, registry := s.registry ++ [s.accepted] }
      else none
  | .input id input =>
      if id < s.accepted ∧ (s.clients id).gone = false ∧ (s.io = none ∨ s.io = some id) then
        ((s.clients id).step parse port input).map fun c =>
          { s.setClient id c with io := if c.machine.io.isReading then none else some id }
      else none
  | .destroy id =>
      if (s.clients id).stage = .ended ∧ ∀ serving ∈ s.serving, id ∉ serving.held then
        some (s.setClient id { s.clients id with gone := true })
      else none
  | .deliver sample =>
      match s.serving with
      | none =>
          some { s with
            clients := s.visit sample
            registry := s.registry.filter fun id => !(s.clients id).gone
            serving := some ⟨s.snapshot, s.snapshot⟩ }
      | some _ => none
  | .copySubs subs =>
      match s.serving with
      | some ⟨_, id :: _⟩ => s.serve parse port id (.snapshot subs)
      | _ => none
  | .monitor => s.monitorStep parse port

end Steps

def visiting (s : Server) : Option Nat := s.serving.bind fun serving => serving.todo.head?

inductive Moved (parse : Bytes → Except Exc Value) (port : UInt16) (s : Server) :
    Label → Server → Prop
  | accept (free : s.io = none) :
      Moved parse port s .accept
        { s with accepted := s.accepted + 1, registry := s.registry ++ [s.accepted] }
  | input {id : Nat} {input : Input} {c : Client} (known : id < s.accepted)
      (taken : (s.clients id).step parse port input = some c) :
      Moved parse port s (.input id input)
        { s.setClient id c with io := if c.machine.io.isReading then none else some id }
  | destroy {id : Nat} (finished : (s.clients id).stage = .ended) :
      Moved parse port s (.destroy id) (s.setClient id { s.clients id with gone := true })
  | deliver {sample : Sample} (idle : s.serving = none) :
      Moved parse port s (.deliver sample) { s with
        clients := s.visit sample
        registry := s.registry.filter fun id => !(s.clients id).gone
        serving := some ⟨s.snapshot, s.snapshot⟩ }
  | copySubs {id : Nat} {subs : List StandardSub} {machine : Machine} (turn : s.visiting = some id)
      (taken : Lacal.step parse port (s.clients id).machine (.snapshot subs) = some machine) :
      Moved parse port s (.copySubs subs) (s.setClient id { s.clients id with machine })
  | serve {id : Nat} {machine : Machine} (turn : s.visiting = some id)
      (busy : (s.clients id).machine.monitor ≠ .idle)
      (taken : Lacal.step parse port (s.clients id).machine .monitor = some machine) :
      Moved parse port s .monitor (s.setClient id { s.clients id with machine })
  | next {held rest : List Nat} {id : Nat} (there : s.serving = some ⟨held, id :: rest⟩)
      (idle : (s.clients id).machine.monitor = .idle) :
      Moved parse port s .monitor { s with serving := some ⟨held, rest⟩ }
  | removeClosed {held : List Nat} (there : s.serving = some ⟨held, []⟩) :
      Moved parse port s .monitor { s with registry := s.snapshot, serving := none }

section Inversion

variable {parse : Bytes → Except Exc Value} {port : UInt16} {s next : Server}

theorem serve_eq_some {id : Nat} {label : Lacal.Label} :
    s.serve parse port id label = some next ↔
      ∃ machine, Lacal.step parse port (s.clients id).machine label = some machine ∧
        s.setClient id { s.clients id with machine } = next :=
  Option.map_eq_some_iff

theorem moved_monitor (taken : s.monitorStep parse port = some next) :
    Moved parse port s .monitor next := by
  unfold monitorStep at taken
  split at taken
  · cases taken
  · next held id rest there =>
    split at taken
    · next idle =>
      injection taken with same
      rw [← same]
      exact .next there idle
    · next busy =>
      obtain ⟨machine, step, same⟩ := serve_eq_some.mp taken
      rw [← same]
      exact .serve (by rw [visiting, there]; rfl) busy step
  · next held there =>
    injection taken with same
    rw [← same]
    exact .removeClosed there

theorem step_moved {label : Label} (taken : s.step parse port label = some next) :
    Moved parse port s label next := by
  cases label with
  | accept =>
      simp only [step] at taken
      split at taken
      · next free =>
        injection taken with same
        rw [← same]
        exact .accept free
      · cases taken
  | input id input =>
      simp only [step] at taken
      split at taken
      · next ready =>
        obtain ⟨c, step, same⟩ := Option.map_eq_some_iff.mp taken
        rw [← same]
        exact .input ready.1 step
      · cases taken
  | destroy id =>
      simp only [step] at taken
      split at taken
      · next free =>
        injection taken with same
        rw [← same]
        exact .destroy free.1
      · cases taken
  | deliver sample =>
      simp only [step] at taken
      split at taken
      · next idle =>
        injection taken with same
        rw [← same]
        exact .deliver idle
      · cases taken
  | copySubs subs =>
      simp only [step] at taken
      split at taken
      · next held id rest there =>
        obtain ⟨machine, step, same⟩ := serve_eq_some.mp taken
        rw [← same]
        exact .copySubs (by rw [visiting, there]; rfl) step
      · cases taken
  | monitor => exact moved_monitor taken

end Inversion

end Server

end Arcal.Lacal
