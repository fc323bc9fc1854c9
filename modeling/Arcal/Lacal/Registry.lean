import Arcal.Lacal.Server

/-! Each client of the server lives as if it were alone: its session is one that `Machine`
reaches with the client's own lines and with every sample delivered since it was accepted. -/

namespace Arcal.Lacal

open JsonText (Value)
open Transition

def MonitorPc.isIdle : MonitorPc → Bool
  | .idle => true
  | _ => false

theorem MonitorPc.isIdle_iff {pc : MonitorPc} : pc.isIdle = true ↔ pc = .idle := by
  cases pc <;> simp [isIdle]

section Sessions

variable {parse : Bytes → Except Exc Value} {port : UInt16}

theorem Client.Moved.monitor {c c' : Client} {input : Input}
    (moved : Client.Moved parse port c input c') : c'.machine.monitor = c.machine.monitor := by
  cases moved with
  | request => rfl
  | upgraded => rfl
  | binary => rfl
  | lost => rfl
  | text there taken =>
      cases Lacal.step_moved taken
      rfl
  | reply there taken => cases Lacal.step_moved taken <;> rfl

theorem Client.Moved.stays_closed {c c' : Client} {input : Input}
    (moved : Client.Moved parse port c input c') (closed : c.isOpen = false) :
    c'.isOpen = false := by
  cases moved with
  | request => exact closed
  | upgraded => exact closed
  | binary => exact closed
  | lost => rfl
  | text there taken => exact (Lacal.step_moved taken).stays_closed closed
  | reply there taken => exact (Lacal.step_moved taken).stays_closed closed

theorem Machine.stageAfter_ended {m : Machine} (finished : m.stageAfter = .ended) :
    m.session.isOpen = false := by
  unfold stageAfter at finished
  split at finished
  · next closed => simpa using (Bool.and_eq_true_iff.mp closed).2
  · cases finished

theorem Client.Moved.finished {c c' : Client} {input : Input}
    (moved : Client.Moved parse port c input c')
    (finished : c'.stage = .ended) : c'.isOpen = false := by
  cases moved with
  | request =>
      simp only at finished
      split at finished <;> cases finished
  | upgraded => cases finished
  | binary => exact Machine.stageAfter_ended finished
  | lost => rfl
  | text there taken => exact Machine.stageAfter_ended finished
  | reply there taken => exact Machine.stageAfter_ended finished

theorem Client.Moved.gone {c c' : Client} {input : Input}
    (moved : Client.Moved parse port c input c') : c'.gone = c.gone := by
  cases moved <;> rfl

end Sessions

namespace Server

/-- Between any two steps: closed clients alone are missing from the registry, and the
monitor is on its way only to clients it has yet to serve. -/
structure Kept (s : Server) : Prop where
  order : s.registry.Sublist (List.range s.accepted)
  listed : ∀ id < s.accepted, (s.clients id).isOpen = true → id ∈ s.registry
  fresh : ∀ id, s.accepted ≤ id → s.clients id = {}
  finished : ∀ id, (s.clients id).stage = .ended → (s.clients id).isOpen = false
  gone : ∀ id, (s.clients id).gone = true → (s.clients id).isOpen = false
  todo : ∀ serving ∈ s.serving, ∀ id ∈ serving.todo, id < s.accepted
  idle : ∀ id, (∀ serving ∈ s.serving, id ∉ serving.todo) →
    (s.clients id).machine.monitor = .idle

section Steps

variable {parse : Bytes → Except Exc Value} {port : UInt16} {s next : Server}

theorem kept_start : Kept {} where
  order := List.nil_sublist _
  listed := fun _ none => absurd none (Nat.not_lt_zero _)
  fresh := fun _ _ => rfl
  finished := by
    intro id finished
    cases finished
  gone := by
    intro id gone
    cases gone
  todo := fun _ none => absurd none (Option.not_mem_none _)
  idle := fun _ _ => rfl

@[simp] theorem setClient_registry (s : Server) (id : Nat) (c : Client) :
    (s.setClient id c).registry = s.registry := rfl

@[simp] theorem setClient_accepted (s : Server) (id : Nat) (c : Client) :
    (s.setClient id c).accepted = s.accepted := rfl

@[simp] theorem setClient_serving (s : Server) (id : Nat) (c : Client) :
    (s.setClient id c).serving = s.serving := rfl

@[simp] theorem setClient_self (s : Server) (id : Nat) (c : Client) :
    (s.setClient id c).clients id = c := by
  simp [setClient]

theorem setClient_other (s : Server) {id other : Nat} (c : Client) (apart : other ≠ id) :
    (s.setClient id c).clients other = s.clients other := by
  simp [setClient, apart]

theorem mem_snapshot {id : Nat} :
    id ∈ s.snapshot ↔ id ∈ s.registry ∧ (s.clients id).gone = false ∧ (s.clients id).isOpen = true := by
  simp [snapshot, Client.live]

theorem Kept.mem_snapshot_iff (kept : Kept s) {id : Nat} :
    id ∈ s.snapshot ↔ id < s.accepted ∧ (s.clients id).isOpen = true := by
  rw [mem_snapshot]
  constructor
  · intro there
    exact ⟨List.mem_range.mp (kept.order.subset there.1), there.2.2⟩
  · intro there
    refine ⟨kept.listed id there.1 there.2, ?_, there.2⟩
    apply eq_false_of_ne_true
    intro gone
    rw [kept.gone id gone] at there
    exact absurd there.2 Bool.false_ne_true

theorem Kept.all_idle (kept : Kept s) (idle : s.serving = none) (id : Nat) :
    (s.clients id).machine.monitor = .idle := by
  apply kept.idle
  intro serving there
  rw [idle] at there
  cases there

theorem Kept.setClient (kept : Kept s) {id : Nat} {c : Client} (known : id < s.accepted)
    (closed : (s.clients id).isOpen = false → c.isOpen = false)
    (finished : c.stage = .ended → c.isOpen = false) (gone : c.gone = true → c.isOpen = false)
    (idle : (∀ serving ∈ s.serving, id ∉ serving.todo) → c.machine.monitor = .idle) :
    Kept (s.setClient id c) where
  order := kept.order
  listed := by
    intro other accepted isOpen
    by_cases same : other = id
    · subst same
      rw [setClient_self] at isOpen
      apply kept.listed other accepted
      by_contra shut
      rw [closed (eq_false_of_ne_true shut)] at isOpen
      exact Bool.false_ne_true isOpen
    · rw [setClient_other s c same] at isOpen
      exact kept.listed other accepted isOpen
  fresh := by
    intro other behind
    have apart : other ≠ id := by
      have here : s.accepted ≤ other := behind
      omega
    rw [setClient_other s c apart]
    exact kept.fresh other behind
  finished := by
    intro other ended
    by_cases same : other = id
    · subst same
      rw [setClient_self] at ended ⊢
      exact finished ended
    · rw [setClient_other s c same] at ended ⊢
      exact kept.finished other ended
  gone := by
    intro other isGone
    by_cases same : other = id
    · subst same
      rw [setClient_self] at isGone ⊢
      exact gone isGone
    · rw [setClient_other s c same] at isGone ⊢
      exact kept.gone other isGone
  todo := kept.todo
  idle := by
    intro other away
    by_cases same : other = id
    · subst same
      rw [setClient_self]
      exact idle away
    · rw [setClient_other s c same]
      exact kept.idle other away

theorem Kept.ofIo (kept : Kept s) (io : Option Nat) : Kept { s with io } :=
  ⟨kept.order, kept.listed, kept.fresh, kept.finished, kept.gone, kept.todo, kept.idle⟩

theorem visiting_todo {id : Nat} (turn : s.visiting = some id) :
    ∃ serving ∈ s.serving, id ∈ serving.todo := by
  obtain ⟨serving, there, head⟩ := Option.bind_eq_some_iff.mp turn
  exact ⟨serving, there, List.mem_of_mem_head? head⟩

theorem Kept.serve (kept : Kept s) {id : Nat} {label : Lacal.Label} {machine : Machine}
    (turn : s.visiting = some id)
    (taken : Lacal.step parse port (s.clients id).machine label = some machine) :
    Kept (s.setClient id { s.clients id with machine }) := by
  obtain ⟨serving, there, inside⟩ := visiting_todo turn
  apply kept.setClient (kept.todo serving there id inside)
  · exact (Lacal.step_moved taken).stays_closed
  · intro ended
    exact (Lacal.step_moved taken).stays_closed (kept.finished id ended)
  · intro gone
    exact (Lacal.step_moved taken).stays_closed (kept.gone id gone)
  · intro away
    exact absurd inside (away serving there)

theorem filter_order (kept : Kept s) (p : Nat → Bool) :
    (s.registry.filter p).Sublist (List.range s.accepted) :=
  List.filter_sublist.trans kept.order

theorem visit_isOpen (s : Server) (sample : Sample) (id : Nat) :
    (s.visit sample id).isOpen = (s.clients id).isOpen := by
  unfold visit
  split <;> rfl

theorem visit_stage (s : Server) (sample : Sample) (id : Nat) :
    (s.visit sample id).stage = (s.clients id).stage := by
  unfold visit
  split <;> rfl

theorem visit_gone (s : Server) (sample : Sample) (id : Nat) :
    (s.visit sample id).gone = (s.clients id).gone := by
  unfold visit
  split <;> rfl

theorem visit_outside {sample : Sample} {id : Nat} (outside : id ∉ s.snapshot) :
    s.visit sample id = s.clients id := if_neg outside

theorem Kept.step {label : Label} (kept : Kept s) (moved : Moved parse port s label next) :
    Kept next := by
  cases moved with
  | accept =>
      refine ⟨?_, ?_, ?_, kept.finished, kept.gone, ?_, kept.idle⟩
      · rw [List.range_succ]
        exact kept.order.append_right _
      · intro id accepted isOpen
        rcases Nat.lt_succ_iff_lt_or_eq.mp accepted with before | last
        · exact List.mem_append_left _ (kept.listed id before isOpen)
        · rw [last]
          exact List.mem_append_right _ (List.mem_singleton_self _)
      · intro id behind
        exact kept.fresh id (Nat.le_of_succ_le behind)
      · intro serving there id inside
        exact Nat.lt_succ_of_lt (kept.todo serving there id inside)
  | @input id input c known taken =>
      have moved := Client.step_moved taken
      apply Kept.ofIo
      apply kept.setClient known moved.stays_closed moved.finished
      · intro gone
        rw [moved.gone] at gone
        exact moved.stays_closed (kept.gone id gone)
      · intro away
        rw [moved.monitor]
        exact kept.idle id away
  | @destroy id finished =>
      have known : id < s.accepted := by
        by_contra behind
        rw [kept.fresh id (Nat.le_of_not_lt behind)] at finished
        cases finished
      exact kept.setClient known (fun closed => closed) (fun _ => kept.finished id finished)
        (fun _ => kept.finished id finished) (kept.idle id)
  | @deliver sample idle =>
      refine ⟨filter_order kept _, ?_, ?_, ?_, ?_, ?_, ?_⟩
      · intro id accepted isOpen
        simp only [visit_isOpen] at isOpen
        have inside := mem_snapshot.mp (kept.mem_snapshot_iff.mpr ⟨accepted, isOpen⟩)
        exact List.mem_filter.mpr ⟨inside.1, by simp [inside.2.1]⟩
      · intro id behind
        have outside : id ∉ s.snapshot := by
          intro inside
          exact absurd (kept.mem_snapshot_iff.mp inside).1 (Nat.not_lt.mpr behind)
        exact (visit_outside outside).trans (kept.fresh id behind)
      · intro id ended
        simp only [visit_stage, visit_isOpen] at ended ⊢
        exact kept.finished id ended
      · intro id gone
        simp only [visit_gone, visit_isOpen] at gone ⊢
        exact kept.gone id gone
      · intro serving there id inside
        injection there with same
        rw [← same] at inside
        exact (kept.mem_snapshot_iff.mp inside).1
      · intro id away
        have outside : id ∉ s.snapshot := away _ rfl
        simp only [visit_outside outside]
        apply kept.idle
        intro serving there
        rw [idle] at there
        cases there
  | copySubs turn taken => exact kept.serve turn taken
  | serve turn busy taken => exact kept.serve turn taken
  | @next held rest id there idle =>
      refine ⟨kept.order, kept.listed, kept.fresh, kept.finished, kept.gone, ?_, ?_⟩
      · intro serving here other inside
        injection here with same
        rw [← same] at inside
        exact kept.todo _ there other (List.mem_cons_of_mem _ inside)
      · intro other away
        by_cases same : other = id
        · rw [same]
          exact idle
        · apply kept.idle
          intro serving here inside
          rw [there] at here
          injection here with isThat
          rw [← isThat] at inside
          exact away _ rfl (List.mem_of_ne_of_mem same inside)
  | @removeClosed held there =>
      refine ⟨filter_order kept _, ?_, kept.fresh, kept.finished, kept.gone, ?_, ?_⟩
      · intro id accepted isOpen
        exact kept.mem_snapshot_iff.mpr ⟨accepted, isOpen⟩
      · intro serving here
        cases here
      · intro id _
        apply kept.idle
        intro serving here inside
        rw [there] at here
        injection here with same
        rw [← same] at inside
        cases inside

theorem kept_run {labels : List Label} (whole : run (step parse port) {} labels = some s) :
    Kept s :=
  run_invariant (fun _ _ _ kept taken => kept.step (step_moved taken)) kept_start whole

end Steps

def movesFor (id : Nat) (s : Server) : Label → List Lacal.Label
  | .accept => []
  | .input other input => if other = id then input.moves else []
  | .destroy _ => []
  | .deliver sample => if id ∈ s.snapshot then [.arrive sample] else []
  | .copySubs subs => if s.visiting = some id then [.snapshot subs] else []
  | .monitor =>
      if s.visiting = some id ∧ (s.clients id).machine.monitor.isIdle = false then [.monitor]
      else []

/-- The samples that come to a session, and the lines that it reads. -/
def arrivals (moves : List Lacal.Label) : List Sample :=
  moves.filterMap fun
    | .arrive sample => some sample
    | _ => none

def linesRead (moves : List Lacal.Label) : List Bytes :=
  moves.filterMap fun
    | .line payload => some payload
    | _ => none

/-- The samples that are delivered from the acceptance of the client on; so many are accepted
at the start. -/
def deliveredTo (id : Nat) : Nat → List Label → List Sample
  | _, [] => []
  | accepted, .accept :: rest => deliveredTo id (accepted + 1) rest
  | accepted, .deliver sample :: rest =>
      if id < accepted then sample :: deliveredTo id accepted rest
      else deliveredTo id accepted rest
  | accepted, _ :: rest => deliveredTo id accepted rest

def textsOf (id : Nat) (labels : List Label) : List Bytes :=
  labels.filterMap fun
    | .input other (.text payload) => if other = id then some payload else none
    | _ => none

section Views

variable {parse : Bytes → Except Exc Value} {port : UInt16} {s next : Server} {id : Nat}

theorem setClient_seen {other : Nat} {machine : Machine} {label : Lacal.Label}
    (taken : Lacal.step parse port (s.clients other).machine label = some machine) :
    run (Lacal.step parse port) (s.clients id).machine (if other = id then [label] else []) =
      some ((s.setClient other { s.clients other with machine }).clients id).machine := by
  by_cases same : other = id
  · subst same
    rw [if_pos rfl, setClient_self]
    exact run_cons_eq_some.mpr ⟨machine, taken, rfl⟩
  · rw [if_neg same, setClient_other _ _ (Ne.symm same)]
    rfl

theorem movesFor_seen {label : Label} (kept : Kept s) (moved : Moved parse port s label next) :
    run (Lacal.step parse port) (s.clients id).machine (movesFor id s label) =
      some (next.clients id).machine := by
  cases moved with
  | accept => rfl
  | @input other input c known taken =>
      simp only [movesFor]
      by_cases same : other = id
      · subst same
        rw [if_pos rfl, setClient_self]
        exact (Client.step_moved taken).machine
      · rw [if_neg same, setClient_other _ _ (Ne.symm same)]
        rfl
  | @destroy other finished =>
      by_cases same : other = id
      · subst same
        rw [setClient_self]
        rfl
      · rw [setClient_other _ _ (Ne.symm same)]
        rfl
  | @deliver sample idle =>
      simp only [movesFor, visit]
      by_cases inside : id ∈ s.snapshot
      · have isOpen : (s.clients id).machine.session.isOpen = true :=
          (kept.mem_snapshot_iff.mp inside).2
        simp [inside, run, Lacal.step, kept.all_idle idle id, isOpen]
      · simp [inside, run]
  | copySubs turn taken =>
      simp only [movesFor, turn, Option.some.injEq]
      exact setClient_seen taken
  | @serve other machine turn busy taken =>
      have seen : run (Lacal.step parse port) (s.clients id).machine _ = _ := setClient_seen taken
      by_cases same : other = id
      · subst same
        have notIdle : (s.clients other).machine.monitor.isIdle = false :=
          eq_false_of_ne_true fun isIdle => busy (MonitorPc.isIdle_iff.mp isIdle)
        simpa [movesFor, turn, notIdle] using seen
      · simpa [movesFor, turn, same] using seen
  | @next held rest other there idle =>
      have nothing : movesFor id s .monitor = [] := by
        refine if_neg ?_
        intro both
        have here : s.visiting = some other := by rw [visiting, there]; rfl
        rw [here] at both
        rw [← Option.some.inj both.1, idle] at both
        exact absurd both.2 (by decide)
      rw [nothing]
      rfl
  | @removeClosed held there =>
      have nothing : movesFor id s .monitor = [] := by
        refine if_neg ?_
        intro both
        rw [visiting, there] at both
        exact absurd both.1 (by simp)
      rw [nothing]
      rfl

theorem movesFor_lines (id : Nat) (s : Server) (label : Label) :
    linesRead (movesFor id s label) = textsOf id [label] := by
  cases label with
  | input other input =>
      by_cases same : other = id
      · cases input <;> simp [movesFor, same, Input.moves, linesRead, textsOf]
      · cases input <;> simp [movesFor, same, linesRead, textsOf]
  | accept => rfl
  | destroy other => rfl
  | deliver sample =>
      simp only [movesFor]
      split <;> rfl
  | copySubs subs =>
      simp only [movesFor]
      split <;> rfl
  | monitor =>
      simp only [movesFor]
      split <;> rfl

theorem movesAlong_lines {labels : List Label} (whole : run (step parse port) s labels = some next) :
    linesRead (movesAlong (step parse port) (movesFor id) s labels) = textsOf id labels := by
  induction labels generalizing s with
  | nil => rfl
  | cons label rest ih =>
      obtain ⟨mid, taken, more⟩ := run_cons_eq_some.mp whole
      rw [movesAlong_cons taken]
      calc
        linesRead (movesFor id s label ++ movesAlong (step parse port) (movesFor id) mid rest) =
            linesRead (movesFor id s label) ++
              linesRead (movesAlong (step parse port) (movesFor id) mid rest) :=
          List.filterMap_append
        _ = textsOf id [label] ++ textsOf id rest := by rw [movesFor_lines, ih more]
        _ = textsOf id (label :: rest) := List.filterMap_append.symm

theorem movesFor_arrivals (id : Nat) (s : Server) (label : Label) :
    arrivals (movesFor id s label) = [] ∨
      ∃ sample, label = .deliver sample ∧ id ∈ s.snapshot ∧
        arrivals (movesFor id s label) = [sample] := by
  cases label with
  | deliver sample =>
      by_cases inside : id ∈ s.snapshot
      · exact .inr ⟨sample, rfl, inside, by simp [movesFor, inside, arrivals]⟩
      · exact .inl (by simp [movesFor, inside, arrivals])
  | input other input =>
      left
      simp only [movesFor]
      split
      · cases input <;> rfl
      · rfl
  | accept => exact .inl rfl
  | destroy other => exact .inl rfl
  | copySubs subs =>
      left
      simp only [movesFor]
      split <;> rfl
  | monitor =>
      left
      simp only [movesFor]
      split <;> rfl

theorem closed_run {m last : Machine} {moves : List Lacal.Label}
    (closed : m.session.isOpen = false)
    (whole : run (Lacal.step parse port) m moves = some last) : last.session.isOpen = false :=
  run_invariant (fun _ _ _ shut taken => (Lacal.step_moved taken).stays_closed shut) closed whole

theorem Moved.stays_closed {label : Label} (kept : Kept s)
    (moved : Moved parse port s label next) (closed : (s.clients id).isOpen = false) :
    (next.clients id).isOpen = false :=
  closed_run closed (movesFor_seen kept moved)

/-- No sample comes to a client that is closed, and it stays so. -/
theorem closed_hears_nothing {labels : List Label} (kept : Kept s)
    (closed : (s.clients id).isOpen = false)
    (whole : run (step parse port) s labels = some next) :
    arrivals (movesAlong (step parse port) (movesFor id) s labels) = [] ∧
      (next.clients id).isOpen = false := by
  induction labels generalizing s with
  | nil =>
      injection whole with same
      rw [← same]
      exact ⟨rfl, closed⟩
  | cons label rest ih =>
      obtain ⟨mid, taken, more⟩ := run_cons_eq_some.mp whole
      have moved := step_moved taken
      have later := ih (kept.step moved) (moved.stays_closed kept closed) more
      refine ⟨?_, later.2⟩
      rw [movesAlong_cons taken, arrivals, List.filterMap_append, ← arrivals, ← arrivals, later.1,
        List.append_nil]
      rcases movesFor_arrivals id s label with none | ⟨sample, _, inside, _⟩
      · exact none
      · rw [(kept.mem_snapshot_iff.mp inside).2] at closed
        cases closed

theorem deliveredTo_cons {label : Label} (moved : Moved parse port s label next) (id : Nat)
    (rest : List Label) :
    deliveredTo id s.accepted (label :: rest) =
      deliveredTo id s.accepted [label] ++ deliveredTo id next.accepted rest := by
  cases moved with
  | accept => rfl
  | input => rfl
  | destroy => rfl
  | deliver =>
      simp only [deliveredTo]
      split <;> rfl
  | copySubs => rfl
  | serve => rfl
  | next => rfl
  | removeClosed => rfl

theorem movesFor_delivered (kept : Kept s) (isOpen : (s.clients id).isOpen = true)
    (label : Label) :
    arrivals (movesFor id s label) = deliveredTo id s.accepted [label] := by
  cases label with
  | deliver sample =>
      have here : id ∈ s.snapshot ↔ _ := kept.mem_snapshot_iff
      by_cases known : id < s.accepted
      · simp [movesFor, here, known, isOpen, deliveredTo, arrivals]
      · simp [movesFor, here, known, deliveredTo, arrivals]
  | accept => rfl
  | destroy other => rfl
  | input other input =>
      simp only [movesFor]
      split
      · cases input <;> rfl
      · rfl
  | copySubs subs =>
      simp only [movesFor]
      split <;> rfl
  | monitor =>
      simp only [movesFor]
      split <;> rfl

variable (id) in
theorem movesAlong_arrivals {labels : List Label} (kept : Kept s)
    (whole : run (step parse port) s labels = some next) :
    arrivals (movesAlong (step parse port) (movesFor id) s labels) <+:
        deliveredTo id s.accepted labels ∧
      ((next.clients id).isOpen = true →
        arrivals (movesAlong (step parse port) (movesFor id) s labels) =
          deliveredTo id s.accepted labels) := by
  by_cases closed : (s.clients id).isOpen = false
  · have nothing := closed_hears_nothing kept closed whole
    rw [nothing.1, nothing.2]
    exact ⟨List.nil_prefix, fun isOpen => absurd isOpen Bool.false_ne_true⟩
  have isOpen : (s.clients id).isOpen = true := by simpa using closed
  induction labels generalizing s with
  | nil => exact ⟨List.prefix_rfl, fun _ => rfl⟩
  | cons label rest ih =>
      obtain ⟨mid, taken, more⟩ := run_cons_eq_some.mp whole
      have moved := step_moved taken
      have here := movesFor_delivered kept isOpen label
      rw [movesAlong_cons taken, deliveredTo_cons moved, arrivals, List.filterMap_append,
        ← arrivals, ← arrivals, here]
      by_cases shut : (mid.clients id).isOpen = false
      · have nothing := closed_hears_nothing (kept.step moved) shut more
        rw [nothing.1, nothing.2, List.append_nil]
        exact ⟨List.prefix_append _ _, fun isOpen => absurd isOpen Bool.false_ne_true⟩
      · have later := ih (kept.step moved) more shut (by simpa using shut)
        refine ⟨(List.prefix_append_right_inj _).mpr later.1, ?_⟩
        intro stillOpen
        rw [later.2 stillOpen]

theorem session_seen {labels : List Label} (whole : run (step parse port) {} labels = some s)
    (id : Nat) :
    run (Lacal.step parse port) {} (movesAlong (step parse port) (movesFor id) {} labels) =
      some (s.clients id).machine :=
  run_view (fun s : Server => (s.clients id).machine)
    (fun _ _ _ kept taken => Kept.step kept (step_moved taken))
    (fun _ _ _ kept taken => movesFor_seen kept (step_moved taken)) kept_start whole

/-- Whatever the others do, the session of a client of the server is one that the client
alone could have: it reads the client's own lines, and the samples that come to it are those
delivered since it was accepted, in their order and each once, up to its end. -/
theorem client_alone {labels : List Label} (whole : run (step parse port) {} labels = some s)
    (id : Nat) :
    ∃ moves, run (Lacal.step parse port) {} moves = some (s.clients id).machine ∧
      linesRead moves = textsOf id labels ∧
      arrivals moves <+: deliveredTo id 0 labels ∧
      ((s.clients id).isOpen = true → arrivals moves = deliveredTo id 0 labels) :=
  ⟨_, session_seen whole id, movesAlong_lines whole, movesAlong_arrivals id kept_start whole⟩

def refuseAll (_ : Bytes) : Except Exc Value := .error (.jsonException [])

theorem client_alone_second :
    ∃ s moves, run (step refuseAll 8766) {}
      [.accept, .accept, .input 1 (.request (utf8 "mqtt, owp")), .input 1 .upgraded,
        .input 1 (.text (utf8 "SUB"))] = some s ∧
    run (Lacal.step refuseAll 8766) {} moves = some (s.clients 1).machine ∧
    linesRead moves = [utf8 "SUB"] ∧ arrivals moves <+: [] := by
  obtain ⟨s, whole⟩ := Option.isSome_iff_exists.mp (show (run (step refuseAll 8766) {}
      [.accept, .accept, .input 1 (.request (utf8 "mqtt, owp")), .input 1 .upgraded,
        .input 1 (.text (utf8 "SUB"))]).isSome = true by decide)
  obtain ⟨moves, session, lines, samples, _⟩ := client_alone whole 1
  exact ⟨s, moves, whole, session, lines, samples⟩

theorem Kept.snapshot_eq (kept : Kept s) :
    s.snapshot = (List.range s.accepted).filter fun id => (s.clients id).isOpen := by
  have listed : s.snapshot.Pairwise (· < ·) :=
    List.pairwise_lt_range.sublist (List.filter_sublist.trans kept.order)
  have accepted := (List.pairwise_lt_range (n := s.accepted)).filter
    fun id => (s.clients id).isOpen
  refine List.Perm.eq_of_pairwise ?_ listed accepted ?_
  · intro one other _ _ before behind
    exact absurd behind (Nat.lt_asymm before)
  · rw [List.perm_ext_iff_of_nodup (listed.imp Nat.ne_of_lt) (accepted.imp Nat.ne_of_lt)]
    intro id
    rw [kept.mem_snapshot_iff, List.mem_filter, List.mem_range]

/-- The registry lists clients in the order of their acceptance, none twice and no open one
left out; when a delivery is over, it lists exactly the open ones. -/
theorem registry_lists_open {labels : List Label}
    (whole : run (step parse port) {} labels = some s) :
    s.registry.Sublist (List.range s.accepted) ∧
      (∀ id < s.accepted, (s.clients id).isOpen = true → id ∈ s.registry) ∧
      ∀ held, s.serving = some ⟨held, []⟩ → ∃ after,
        s.step parse port .monitor = some after ∧
        after.registry = (List.range s.accepted).filter fun id => (s.clients id).isOpen := by
  have kept := kept_run whole
  refine ⟨kept.order, kept.listed, ?_⟩
  intro held there
  exact ⟨{ s with registry := s.snapshot, serving := none }, by simp [step, monitorStep, there],
    kept.snapshot_eq⟩

theorem registry_lists_open_one :
    ∃ s, run (step refuseAll 8766) {} [.accept, .accept, .input 0 .requestError] = some s ∧
      s.registry.Sublist (List.range s.accepted) ∧
      ∀ id < s.accepted, (s.clients id).isOpen = true → id ∈ s.registry := by
  obtain ⟨s, whole⟩ := Option.isSome_iff_exists.mp (show (run (step refuseAll 8766) {}
      [.accept, .accept, .input 0 .requestError]).isSome = true by decide)
  obtain ⟨order, listed, _⟩ := registry_lists_open whole
  exact ⟨s, whole, order, listed⟩

end Views

end Server

end Arcal.Lacal
