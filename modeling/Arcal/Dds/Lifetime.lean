import Arcal.Dds.Shutdown

/-! The participant and the monitor thread: `shutdown` closes the participant behind the
monitor's back only when the monitor has gone, and it always comes to that. -/

namespace Arcal.Dds.Status

open Transition

section Machine

variable {Tid L : Type}

/-- Who clears `running_` waits for the monitor, which looks at nothing else. -/
structure Connection.Attended (c : Connection Tid L) : Prop where
  gone : c.monitor = .returned → c.shared.running = false
  joining : ∀ t, c.app t = .joining → c.shared.running = false
  closed : c.shared.closed = true → c.monitor = .returned

theorem constructed_attended : (constructed : Connection Tid L).Attended where
  gone := fun ended => by cases ended
  joining := fun _ waits => by cases waits
  closed := fun ended => by cases ended

end Machine

section Steps

variable {L : Type}

theorem running_transitionState (sh : Shared L) (newState : StateEnum) (detail : String) :
    (sh.transitionState newState detail).1.running = sh.running := by
  rw [Shared.transitionState]
  split_ifs
  · rfl
  · rfl

theorem appStep_flags {sh sh' : Shared L} {monitor : MonitorPc L} {pc pc' : AppPc L}
    (went : appStep sh monitor pc = some (sh', pc')) :
    (sh'.running = true → sh.running = true) ∧ (pc' = .joining → sh'.running = false) ∧
      (sh'.closed = true → sh.closed = true ∨ monitor = .returned) := by
  cases pc with
  | idle => cases went
  | adding listener current =>
      cases went
      refine ⟨id, ?_, .inl⟩
      intro joins
      cases joins
  | requested =>
      simp only [appStep, Option.some.injEq, Prod.mk.injEq] at went
      rw [← went.1, ← went.2, running_transitionState, closed_transitionState]
      refine ⟨id, ?_, .inl⟩
      intro joins
      cases joins
  | notifying rest data =>
      cases rest with
      | nil =>
          cases went
          exact ⟨fun set => (by cases set), fun _ => rfl, .inl⟩
      | cons listener rest =>
          cases went
          refine ⟨id, ?_, .inl⟩
          intro joins
          cases joins
  | joining =>
      cases monitor with
      | returned =>
          cases went
          refine ⟨id, ?_, fun _ => .inr rfl⟩
          intro joins
          cases joins
      | _ => cases went

theorem monitorStep_flags {threw : Bool} {sh sh' : Shared L} {pc pc' : MonitorPc L}
    (went : monitorStep threw sh pc = some (sh', pc')) :
    sh'.running = sh.running ∧ sh'.closed = sh.closed ∧ pc ≠ .returned ∧
      (pc' = .returned → sh.running = false) := by
  cases pc with
  | returned => cases went
  | threw =>
      simp only [monitorStep, Option.some.injEq, Prod.mk.injEq] at went
      rw [← went.1, ← went.2, running_transitionState, closed_transitionState]
      exact ⟨rfl, rfl, fun gone => (by cases gone), fun gone => (by cases gone)⟩
  | notifying rest data =>
      cases rest with
      | nil =>
          cases went
          exact ⟨rfl, rfl, fun gone => (by cases gone), fun gone => (by cases gone)⟩
      | cons listener rest =>
          cases went
          exact ⟨rfl, rfl, fun gone => (by cases gone), fun gone => (by cases gone)⟩
  | waiting =>
      cases went
      exact ⟨rfl, rfl, fun gone => (by cases gone), fun gone => (by cases gone)⟩
  | checking =>
      cases went
      refine ⟨rfl, rfl, fun gone => (by cases gone), ?_⟩
      cases threw with
      | true => exact fun gone => by cases gone
      | false => exact fun gone => by cases gone
  | top =>
      cases went
      refine ⟨rfl, rfl, fun gone => (by cases gone), ?_⟩
      cases sh.running with
      | true => exact fun gone => by cases gone
      | false => exact fun _ => rfl
  | woken =>
      cases went
      refine ⟨rfl, rfl, fun gone => (by cases gone), ?_⟩
      cases sh.running with
      | true => exact fun gone => by cases gone
      | false => exact fun _ => rfl

variable {Tid : Type} [DecidableEq Tid] [DecidableEq L] {c next : Connection Tid L}
  {label : Label Tid L}

theorem attended_step (attended : c.Attended) (taken : step c label = some next) :
    next.Attended := by
  have other : ∀ {t : Tid} {pc : AppPc L}, pc ≠ .joining →
      (∀ t', Function.update c.app t pc t' = .joining → c.shared.running = false) := by
    intro t pc differs t' waits
    by_cases same : t' = t
    · rw [same, Function.update_self] at waits
      exact absurd waits differs
    · rw [Function.update_of_ne same] at waits
      exact attended.joining t' waits
  cases label with
  | addStatusListener t listener =>
      cases stands : c.app t with
      | idle =>
          simp only [step, stands, Option.some.injEq] at taken
          rw [← taken]
          exact ⟨attended.gone, other (fun same => by cases same), attended.closed⟩
      | _ => simp [step, stands] at taken
  | removeStatusListener listener =>
      cases taken
      exact ⟨attended.gone, attended.joining, attended.closed⟩
  | shutdown t =>
      cases stands : c.app t with
      | idle =>
          simp only [step, stands] at taken
          split at taken
          · cases taken
            exact attended
          · cases taken
            exact ⟨attended.gone, other (fun same => by cases same), attended.closed⟩
      | _ => simp [step, stands] at taken
  | app t =>
      obtain ⟨⟨shared, pc⟩, went, same⟩ := Option.bind_eq_some_iff.mp taken
      cases same
      obtain ⟨running, joins, closes⟩ := appStep_flags went
      have stays : c.shared.running = false → shared.running = false := by
        intro cleared
        rw [Bool.eq_false_iff]
        intro set
        rw [running set] at cleared
        cases cleared
      refine ⟨fun ended => stays (attended.gone ended), ?_, ?_⟩
      · intro t' waits
        by_cases same : t' = t
        · subst same
          exact joins (by simpa using waits)
        · exact stays (attended.joining t' (by simpa [Function.update_of_ne same] using waits))
      · intro closed
        cases closes closed with
        | inl before => exact attended.closed before
        | inr gone => exact gone
  | monitor threw =>
      obtain ⟨⟨shared, pc⟩, went, same⟩ := Option.bind_eq_some_iff.mp taken
      cases same
      obtain ⟨running, closed, going, returns⟩ := monitorStep_flags went
      refine ⟨fun ended => running.trans (returns ended), ?_, ?_⟩
      · intro t waits
        exact running.trans (attended.joining t waits)
      · intro ended
        exact absurd (attended.closed (closed.symm.trans ended)) going

end Steps

section Ends

variable {Tid L : Type} [DecidableEq Tid] [DecidableEq L]

def Gets (t : Tid) (threw : Bool) (c last : Connection Tid L) : Prop :=
  ∃ labels, (∀ label ∈ labels, label = .app t ∨ label = .monitor threw) ∧
    run step c labels = some last

variable {t : Tid} {threw : Bool} {c mid last : Connection Tid L}

theorem Gets.refl (c : Connection Tid L) : Gets t threw c c :=
  ⟨[], by simp, rfl⟩

theorem Gets.trans (first : Gets t threw c mid) (second : Gets t threw mid last) :
    Gets t threw c last := by
  obtain ⟨labels, mine, start⟩ := first
  obtain ⟨more, mine', rest⟩ := second
  refine ⟨labels ++ more, ?_, (run_append start).trans rest⟩
  intro label inside
  cases List.mem_append.mp inside with
  | inl early => exact mine label early
  | inr late => exact mine' label late

theorem Gets.app {shared : Shared L} {pc : AppPc L}
    (went : appStep c.shared c.monitor (c.app t) = some (shared, pc)) :
    Gets t threw c ⟨shared, Function.update c.app t pc, c.monitor⟩ := by
  refine ⟨[.app t], fun label inside => .inl (List.mem_singleton.mp inside), ?_⟩
  refine run_cons_eq_some.mpr ⟨_, ?_, rfl⟩
  simp only [step, went, bind, Option.bind, pure]

theorem Gets.monitor {shared : Shared L} {pc : MonitorPc L}
    (went : monitorStep threw c.shared c.monitor = some (shared, pc)) :
    Gets t threw c ⟨shared, c.app, pc⟩ := by
  refine ⟨[.monitor threw], fun label inside => .inr (List.mem_singleton.mp inside), ?_⟩
  refine run_cons_eq_some.mpr ⟨_, ?_, rfl⟩
  simp only [step, went, bind, Option.bind, pure]

def Leaves (t : Tid) (threw : Bool) (c : Connection Tid L) : Prop :=
  ∃ shared, Gets t threw c ⟨shared, c.app, .returned⟩

theorem Leaves.of_step {shared : Shared L} {pc : MonitorPc L}
    (went : monitorStep threw c.shared c.monitor = some (shared, pc))
    (later : Leaves t threw ⟨shared, c.app, pc⟩) : Leaves t threw c := by
  obtain ⟨last, rest⟩ := later
  exact ⟨last, (Gets.monitor went).trans rest⟩

def Closes (t : Tid) (threw : Bool) (c : Connection Tid L) : Prop :=
  ∃ last, Gets t threw c last ∧ last.shared.closed = true

theorem Closes.of_step {shared : Shared L} {pc : AppPc L}
    (went : appStep c.shared c.monitor (c.app t) = some (shared, pc))
    (later : Closes t threw ⟨shared, Function.update c.app t pc, c.monitor⟩) :
    Closes t threw c := by
  obtain ⟨last, rest, closed⟩ := later
  exact ⟨last, (Gets.app went).trans rest, closed⟩

theorem run_attended {labels : List (Label Tid L)} (whole : run step constructed labels = some c) :
    c.Attended ∧ c.Ordered :=
  run_invariant (fun _ _ _ (given : Connection.Attended _ ∧ Connection.Ordered _) taken =>
    ⟨attended_step given.1 taken, ordered_step given.2 (step_shuts taken)⟩)
    ⟨constructed_attended, constructed_ordered⟩ whole

/-- The participant is closed behind the monitor only: a closed one is never asked for its
domain again, and nobody is left in `shutdown`, or comes back to it, to close it once more. -/
theorem participant_outlives_monitor {labels more : List (Label Tid L)}
    (whole : run step constructed labels = some c) (closed : c.shared.closed = true)
    (later : run step c more = some last) :
    last.shared.closed = true ∧ last.monitor = .returned ∧ ∀ t, last.phases t = .outside := by
  have start := run_attended whole
  have still := run_invariant (fun c label next (given : c.Ordered ∧ c.shared.closed = true) taken =>
    ⟨ordered_step given.1 (step_shuts taken), closed_step (step_shuts taken) given.2 given.1⟩)
    ⟨start.2, closed⟩ later
  have ended : last.Attended ∧ last.Ordered := by
    have both : run step constructed (labels ++ more) = some last := (run_append whole).trans later
    exact run_attended both
  exact ⟨still.2, ended.1.closed still.2, (ended.2.closed still.2).2⟩

/-- Shut down, and asked for a status listener afterwards. -/
theorem participant_outlives_monitor_late : ∃ last : Connection Unit Nat,
    last.shared.closed = true ∧ last.monitor = .returned ∧ last.phases () = .outside := by
  obtain ⟨c, last, ran, closed, later⟩ : ∃ c last : Connection Unit Nat,
      run step constructed lateTransition = some c ∧ c.shared.closed = true ∧
        run step c [.addStatusListener () 7, .app (), .shutdown ()] = some last :=
    ⟨_, _, rfl, rfl, rfl⟩
  obtain ⟨still, gone, nobody⟩ := participant_outlives_monitor ran closed later
  exact ⟨last, still, gone, nobody ()⟩

end Ends

end Arcal.Dds.Status
