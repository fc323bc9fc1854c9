import Arcal.Dds.Status

/-! What becomes of the `FAILED` that `shutdown` sets. The monitor reads `running_` before it
calls `domain_id()`, so it may come to its own transition after that of `shutdown`. -/

namespace Arcal.Dds.Status

open Transition

inductive Phase
  | outside
  | requested
  | failed
  deriving DecidableEq, Repr

def AppPc.phase {L : Type} : AppPc L → Phase
  | .idle => .outside
  | .adding _ _ => .outside
  | .requested => .requested
  | .notifying _ _ => .failed
  | .joining => .failed

section Machine

variable {Tid L : Type}

def Connection.phases (c : Connection Tid L) (t : Tid) : Phase := (c.app t).phase

/-- The transition of `shutdown` is over. -/
def Connection.SetFailed (c : Connection Tid L) : Prop :=
  c.shared.shutdownRequested = true ∧ ∀ t, c.phases t ≠ .requested

/-- Once `shutdown` has returned the status is `FAILED`. -/
def Connection.Final (c : Connection Tid L) : Prop :=
  c.shared.closed = true → c.getStatus.state = .FAILED

/-- The monitor does not come to its transition after that of `shutdown`. -/
def BeforeFailed (c : Connection Tid L) : Label Tid L → Prop
  | .monitor _ => c.monitor = .threw → c.getStatus.state ≠ .FAILED
  | _ => True

/-- One thread at most is in `shutdown`, and it is out again when the connection is closed. -/
structure Connection.Ordered (c : Connection Tid L) : Prop where
  failed : c.getStatus.state = .FAILED → c.SetFailed
  requested : ∀ t, c.phases t ≠ .outside → c.shared.shutdownRequested = true
  alone : ∀ t t', c.phases t ≠ .outside → c.phases t' ≠ .outside → t = t'
  closed : c.shared.closed = true →
    c.shared.shutdownRequested = true ∧ ∀ t, c.phases t = .outside

/-- What a step does to the state and to the threads in `shutdown`. -/
inductive Shuts [DecidableEq Tid] (c : Connection Tid L) (label : Label Tid L)
    (next : Connection Tid L) : Prop
  | apart (met : BeforeFailed c label) (phases : next.phases = c.phases)
      (state : next.getStatus.state = c.getStatus.state)
      (requested : next.shared.shutdownRequested = c.shared.shutdownRequested)
      (closed : next.shared.closed = c.shared.closed)
  | begins (t : Tid) (met : BeforeFailed c label) (first : c.shared.shutdownRequested = false)
      (phases : next.phases = Function.update c.phases t .requested)
      (state : next.getStatus.state = c.getStatus.state)
      (requested : next.shared.shutdownRequested = true)
      (closed : next.shared.closed = c.shared.closed)
  | fails (t : Tid) (met : BeforeFailed c label) (stands : c.phases t = .requested)
      (phases : next.phases = Function.update c.phases t .failed)
      (state : next.getStatus.state = .FAILED)
      (requested : next.shared.shutdownRequested = c.shared.shutdownRequested)
      (closed : next.shared.closed = c.shared.closed)
  | overwrites (late : BeforeFailed c label ↔ c.getStatus.state ≠ .FAILED)
      (phases : next.phases = c.phases) (state : next.getStatus.state = .INOPERABLE)
      (requested : next.shared.shutdownRequested = c.shared.shutdownRequested)
      (closed : next.shared.closed = c.shared.closed)
  | closes (t : Tid) (met : BeforeFailed c label) (stands : c.phases t = .failed)
      (phases : next.phases = Function.update c.phases t .outside)
      (state : next.getStatus.state = c.getStatus.state)
      (requested : next.shared.shutdownRequested = c.shared.shutdownRequested)

end Machine

section Steps

variable {Tid L : Type}

theorem state_transitionState (sh : Shared L) (newState : StateEnum) (detail : String) :
    (sh.transitionState newState detail).1.status.state = newState := by
  rw [Shared.transitionState]
  split_ifs with same
  · exact same
  · rfl

theorem requested_transitionState (sh : Shared L) (newState : StateEnum) (detail : String) :
    (sh.transitionState newState detail).1.shutdownRequested = sh.shutdownRequested := by
  rw [Shared.transitionState]
  split_ifs
  · rfl
  · rfl

theorem closed_transitionState (sh : Shared L) (newState : StateEnum) (detail : String) :
    (sh.transitionState newState detail).1.closed = sh.closed := by
  rw [Shared.transitionState]
  split_ifs
  · rfl
  · rfl

variable [DecidableEq Tid] {c : Connection Tid L}

theorem phases_update (shared : Shared L) (t : Tid) (pc : AppPc L) (monitor : MonitorPc L) :
    Connection.phases ⟨shared, Function.update c.app t pc, monitor⟩ =
      Function.update c.phases t pc.phase := by
  funext other
  by_cases same : other = t
  · simp [Connection.phases, same]
  · simp [Connection.phases, same]

theorem phases_stay (shared : Shared L) {t : Tid} {pc : AppPc L} (monitor : MonitorPc L)
    (stays : pc.phase = (c.app t).phase) :
    Connection.phases ⟨shared, Function.update c.app t pc, monitor⟩ = c.phases := by
  rw [phases_update, stays]
  exact Function.update_eq_self t c.phases

theorem app_shuts {t : Tid} {shared : Shared L} {pc : AppPc L}
    (went : appStep c.shared c.monitor (c.app t) = some (shared, pc)) :
    Shuts c (.app t) ⟨shared, Function.update c.app t pc, c.monitor⟩ := by
  cases stands : c.app t with
  | idle => simp [stands, appStep] at went
  | adding listener current =>
      simp only [stands, appStep, Option.some.injEq, Prod.mk.injEq] at went
      rw [← went.1, ← went.2]
      exact .apart trivial (phases_stay _ _ (by rw [stands]; rfl)) rfl rfl rfl
  | requested =>
      simp only [stands, appStep, Option.some.injEq, Prod.mk.injEq] at went
      rw [← went.1, ← went.2]
      exact .fails t trivial (congrArg AppPc.phase stands) (phases_update _ _ _ _)
        (state_transitionState _ _ _) (requested_transitionState _ _ _)
        (closed_transitionState _ _ _)
  | notifying rest data =>
      cases rest with
      | nil =>
          simp only [stands, appStep, Option.some.injEq, Prod.mk.injEq] at went
          rw [← went.1, ← went.2]
          exact .apart trivial (phases_stay _ _ (by rw [stands]; rfl)) rfl rfl rfl
      | cons listener rest =>
          simp only [stands, appStep, Option.some.injEq, Prod.mk.injEq] at went
          rw [← went.1, ← went.2]
          exact .apart trivial (phases_stay _ _ (by rw [stands]; rfl)) rfl rfl rfl
  | joining =>
      cases ended : c.monitor with
      | returned =>
          simp only [stands, ended, appStep, Option.some.injEq, Prod.mk.injEq] at went
          rw [← went.1, ← went.2]
          exact .closes t trivial (congrArg AppPc.phase stands) (phases_update _ _ _ _) rfl rfl
      | _ => simp [stands, ended, appStep] at went

theorem monitor_shuts {threw : Bool} {shared : Shared L} {pc : MonitorPc L}
    (went : monitorStep threw c.shared c.monitor = some (shared, pc)) :
    Shuts c (.monitor threw) ⟨shared, c.app, pc⟩ := by
  cases stands : c.monitor with
  | threw =>
      simp only [stands, monitorStep, Option.some.injEq, Prod.mk.injEq] at went
      rw [← went.1]
      have late : BeforeFailed c (.monitor threw) ↔ c.getStatus.state ≠ .FAILED := by
        simp only [BeforeFailed, stands, true_implies]
      exact .overwrites late rfl (state_transitionState _ _ _) (requested_transitionState _ _ _)
        (closed_transitionState _ _ _)
  | returned => simp [stands, monitorStep] at went
  | notifying rest data =>
      have met : BeforeFailed c (.monitor threw) := by
        simp [BeforeFailed, stands]
      cases rest with
      | nil =>
          simp only [stands, monitorStep, Option.some.injEq, Prod.mk.injEq] at went
          rw [← went.1]
          exact .apart met rfl rfl rfl rfl
      | cons listener rest =>
          simp only [stands, monitorStep, Option.some.injEq, Prod.mk.injEq] at went
          rw [← went.1]
          exact .apart met rfl rfl rfl rfl
  | _ =>
      have met : BeforeFailed c (.monitor threw) := by
        simp [BeforeFailed, stands]
      simp only [stands, monitorStep, Option.some.injEq, Prod.mk.injEq] at went
      rw [← went.1]
      exact .apart met rfl rfl rfl rfl

variable [DecidableEq L] {next : Connection Tid L} {label : Label Tid L}

theorem step_shuts (taken : step c label = some next) : Shuts c label next := by
  cases label with
  | addStatusListener t listener =>
      cases stands : c.app t with
      | idle =>
          simp only [step, stands, Option.some.injEq] at taken
          rw [← taken]
          exact .apart trivial (phases_stay _ _ (by rw [stands]; rfl)) rfl rfl rfl
      | _ => simp [step, stands] at taken
  | removeStatusListener listener =>
      cases taken
      exact .apart trivial rfl rfl rfl rfl
  | shutdown t =>
      cases stands : c.app t with
      | idle =>
          cases already : c.shared.shutdownRequested with
          | true =>
              simp only [step, stands, already, if_true, Option.some.injEq] at taken
              rw [← taken]
              exact .apart trivial rfl rfl rfl rfl
          | false =>
              simp only [step, stands, already, Bool.false_eq_true, if_false,
                Option.some.injEq] at taken
              rw [← taken]
              exact .begins t trivial already (phases_update _ _ _ _) rfl rfl rfl
      | _ => simp [step, stands] at taken
  | app t =>
      obtain ⟨⟨shared, pc⟩, went, same⟩ := Option.bind_eq_some_iff.mp taken
      cases same
      exact app_shuts went
  | monitor threw =>
      obtain ⟨⟨shared, pc⟩, went, same⟩ := Option.bind_eq_some_iff.mp taken
      cases same
      exact monitor_shuts went

end Steps

section Order

variable {Tid L : Type} {c next : Connection Tid L}

theorem constructed_ordered : (constructed : Connection Tid L).Ordered where
  failed := fun set => by cases set
  requested := fun _ inside => absurd rfl inside
  alone := fun _ _ inside => absurd rfl inside
  closed := fun ended => by cases ended

theorem Connection.Ordered.others (ordered : c.Ordered) {t other : Tid}
    (inside : c.phases t ≠ .outside) (different : other ≠ t) : c.phases other = .outside := by
  by_contra also
  exact different (ordered.alone other t also inside)

theorem Connection.SetFailed.congr (phases : next.phases = c.phases)
    (requested : next.shared.shutdownRequested = c.shared.shutdownRequested) :
    next.SetFailed ↔ c.SetFailed := by
  rw [Connection.SetFailed, Connection.SetFailed, phases, requested]

theorem Connection.Ordered.congr (ordered : c.Ordered) (phases : next.phases = c.phases)
    (requested : next.shared.shutdownRequested = c.shared.shutdownRequested)
    (closed : next.shared.closed = c.shared.closed)
    (failed : next.getStatus.state = .FAILED → c.SetFailed) : next.Ordered where
  failed := fun set => (Connection.SetFailed.congr phases requested).mpr (failed set)
  requested := by
    rw [phases, requested]
    exact ordered.requested
  alone := by
    rw [phases]
    exact ordered.alone
  closed := by
    rw [phases, requested, closed]
    exact ordered.closed

variable [DecidableEq Tid] {label : Label Tid L}

theorem Connection.Ordered.setFailed_update (ordered : c.Ordered) {t : Tid} {phase : Phase}
    (inside : c.phases t ≠ .outside) (later : phase ≠ .requested)
    (phases : next.phases = Function.update c.phases t phase)
    (requested : next.shared.shutdownRequested = c.shared.shutdownRequested) :
    next.SetFailed := by
  refine ⟨requested.trans (ordered.requested t inside), ?_⟩
  intro other
  rw [phases]
  by_cases same : other = t
  · rw [same, Function.update_self]
    exact later
  · rw [Function.update_of_ne same, ordered.others inside same]
    nofun

theorem Connection.Ordered.update (ordered : c.Ordered) {t : Tid} {phase : Phase}
    (inside : c.phases t ≠ .outside) (later : phase ≠ .requested)
    (phases : next.phases = Function.update c.phases t phase)
    (requested : next.shared.shutdownRequested = c.shared.shutdownRequested)
    (closed : next.shared.closed = true → phase = .outside) : next.Ordered := by
  have among : ∀ other, other ≠ t → next.phases other = .outside := by
    intro other different
    rw [phases, Function.update_of_ne different]
    exact ordered.others inside different
  have isRequested := requested.trans (ordered.requested t inside)
  constructor
  · intro _
    exact ordered.setFailed_update inside later phases requested
  · intro _ _
    exact isRequested
  · intro one other oneIn otherIn
    have isOne : one = t := by
      by_contra different
      exact oneIn (among one different)
    have isOther : other = t := by
      by_contra different
      exact otherIn (among other different)
    exact isOne.trans isOther.symm
  · intro ended
    refine ⟨isRequested, ?_⟩
    intro other
    by_cases same : other = t
    · rw [same, phases, Function.update_self]
      exact closed ended
    · exact among other same

theorem ordered_step (ordered : c.Ordered) (shuts : Shuts c label next) : next.Ordered := by
  cases shuts with
  | apart met phases state requested closed =>
      exact ordered.congr phases requested closed fun set => ordered.failed (state ▸ set)
  | overwrites late phases state requested closed =>
      refine ordered.congr phases requested closed ?_
      rw [state]
      nofun
  | fails t met stands phases state requested closed =>
      have inside : c.phases t ≠ .outside := by
        rw [stands]
        nofun
      refine ordered.update inside (by decide) phases requested ?_
      intro ended
      exact absurd ((ordered.closed (closed ▸ ended)).2 t) inside
  | closes t met stands phases state requested =>
      have inside : c.phases t ≠ .outside := by
        rw [stands]
        nofun
      exact ordered.update inside (by decide) phases requested fun _ => rfl
  | begins t met first phases state requested closed =>
      have nobody : ∀ other, c.phases other = .outside := by
        intro other
        by_contra inside
        rw [ordered.requested other inside] at first
        cases first
      have isT : ∀ other, next.phases other ≠ .outside → other = t := by
        intro other inside
        by_contra different
        rw [phases, Function.update_of_ne different] at inside
        exact inside (nobody other)
      constructor
      · intro set
        rw [state] at set
        rw [(ordered.failed set).1] at first
        cases first
      · intro _ _
        exact requested
      · intro one other oneIn otherIn
        exact (isT one oneIn).trans (isT other otherIn).symm
      · intro ended
        rw [closed] at ended
        rw [(ordered.closed ended).1] at first
        cases first

def Connection.KeptFailed (c : Connection Tid L) : Prop :=
  c.SetFailed → c.getStatus.state = .FAILED

/-- The `FAILED` is lost exactly when the monitor comes to its transition after it. -/
theorem keptFailed_step (ordered : c.Ordered) (shuts : Shuts c label next) :
    next.KeptFailed ↔ c.KeptFailed ∧ BeforeFailed c label := by
  cases shuts with
  | apart met phases state requested closed =>
      rw [Connection.KeptFailed, Connection.KeptFailed, state,
        Connection.SetFailed.congr phases requested]
      exact (and_iff_left met).symm
  | begins t met first phases state requested closed =>
      refine iff_of_true ?_ ⟨?_, met⟩
      · intro set
        refine absurd ?_ (set.2 t)
        rw [phases, Function.update_self]
      · intro set
        rw [set.1] at first
        cases first
  | fails t met stands phases state requested closed =>
      exact iff_of_true (fun _ => state) ⟨fun set => absurd stands (set.2 t), met⟩
  | overwrites late phases state requested closed =>
      rw [Connection.KeptFailed, Connection.KeptFailed, state, late,
        Connection.SetFailed.congr phases requested]
      constructor
      · intro kept
        have notSet : ¬ c.SetFailed := fun set => by cases kept set
        exact ⟨fun set => absurd set notSet, fun set => notSet (ordered.failed set)⟩
      · intro given set
        exact absurd (given.1 set) given.2
  | closes t met stands phases state requested =>
      have inside : c.phases t ≠ .outside := by
        rw [stands]
        nofun
      have after := ordered.setFailed_update inside (by decide) phases requested
      have before : c.SetFailed := by
        refine ⟨ordered.requested t inside, ?_⟩
        intro other
        by_cases same : other = t
        · rw [same, stands]
          nofun
        · rw [ordered.others inside same]
          nofun
      rw [Connection.KeptFailed, Connection.KeptFailed, state, and_iff_left met]
      exact ⟨fun kept _ => kept after, fun kept _ => kept before⟩

theorem closed_step (shuts : Shuts c label next) (ended : c.shared.closed = true)
    (ordered : c.Ordered) : next.shared.closed = true := by
  cases shuts with
  | apart met phases state requested closed => exact closed.trans ended
  | begins t met first phases state requested closed => exact closed.trans ended
  | fails t met stands phases state requested closed => exact closed.trans ended
  | overwrites late phases state requested closed => exact closed.trans ended
  | closes t met stands phases state requested =>
      rw [(ordered.closed ended).2 t] at stands
      cases stands

end Order

section Runs

variable {Tid L : Type} [DecidableEq Tid] [DecidableEq L]

/-- The status is `FAILED` from the return of `shutdown` on unless the monitor, past its
check of `running_`, comes to its transition after that of `shutdown`. -/
theorem shutdown_final {labels : List (Label Tid L)} {last : Connection Tid L}
    (whole : run step constructed labels = some last) :
    Throughout step Connection.Final constructed labels ↔
      (last.shared.closed = true → Along step BeforeFailed constructed labels) := by
  have keeps : ∀ (c : Connection Tid L) label next, c.Ordered → step c label = some next →
      next.Ordered := fun _ _ _ ordered taken => ordered_step ordered (step_shuts taken)
  have loses : ∀ (c : Connection Tid L) label next, c.Ordered → step c label = some next →
      (next.KeptFailed ↔ c.KeptFailed ∧ BeforeFailed c label) :=
    fun _ _ _ ordered taken => keptFailed_step ordered (step_shuts taken)
  have start : (constructed : Connection Tid L).KeptFailed := fun set => by cases set.1
  constructor
  · intro final ended
    have orderedLast := run_invariant keeps constructed_ordered whole
    have failed := final.last whole ended
    have kept : last.KeptFailed := fun _ => failed
    exact ((run_iff_along keeps loses constructed_ordered whole).mp kept).2
  · intro met
    apply throughout_of_prefixes
    intro before after mid same there ended
    rw [same] at whole met
    rw [run_append there] at whole
    have ordered := run_invariant keeps constructed_ordered there
    have overLast : last.shared.closed = true := by
      have both := run_invariant (fun c label next (given : c.Ordered ∧ c.shared.closed = true)
        taken => ⟨keeps c label next given.1 taken, closed_step (step_shuts taken) given.2 given.1⟩)
        ⟨ordered, ended⟩ whole
      exact both.2
    have kept := (run_iff_along keeps loses constructed_ordered there).mpr
      ⟨start, (met overLast).start there⟩
    have closedThen := ordered.closed ended
    refine kept ⟨closedThen.1, ?_⟩
    intro t
    rw [closedThen.2 t]
    nofun

/-- The monitor is past its check when the participant fails; `shutdown` sets `FAILED`, then
the monitor comes to its own transition, sees `running_` cleared and is joined. -/
def lateTransition : List (Label Unit Nat) :=
  List.replicate 4 (.monitor true) ++ [.shutdown (), .app (), .monitor true, .app ()] ++
    List.replicate 2 (.monitor true) ++ [.app ()]

theorem inoperable_after_shutdown : ∃ last, run step constructed lateTransition = some last ∧
    last.shared.closed = true ∧ last.getStatus.state = .INOPERABLE :=
  ⟨_, rfl, rfl, rfl⟩

/-- The participant fails and the listener is told before `shutdown` is called. -/
def failsBefore : List (Label Unit Nat) :=
  [.addStatusListener () 0, .app ()] ++ List.replicate 7 (.monitor true) ++
    [.shutdown (), .app (), .app (), .app (), .monitor false, .app ()]

theorem shutdown_final_track : ∃ last, run step constructed failsBefore = some last ∧
    last.shared.closed = true ∧ (0, participantError) ∈ last.shared.notified ∧
    Throughout step Connection.Final constructed failsBefore := by
  refine ⟨_, rfl, rfl, by decide, (shutdown_final rfl).mpr ?_⟩
  intro _
  iterate 2 refine along_cons rfl trivial ?_
  iterate 7 refine along_cons rfl nofun ?_
  iterate 4 refine along_cons rfl trivial ?_
  exact along_cons rfl nofun (along_cons rfl trivial trivial)

end Runs

end Arcal.Dds.Status
