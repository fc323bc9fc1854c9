import Arcal.Lib.Transition

/-! The status of `DdsAbstractServiceBusConnection` as a machine of threads: application
threads that add and remove status listeners and shut the connection down, and the thread in
`monitorLoop`. One step of a thread goes up to the next place where another thread can come
in: a section under `statusMutex_`, a `statusChanged` call, a read or a write of one of the
atomic flags. -/

namespace Arcal.Dds.Status

open Transition

inductive StateEnum
  | INITIALIZING
  | NORMAL
  | DEGRADED
  | INOPERABLE
  | FAILED
  deriving DecidableEq, Repr

structure StatusData where
  state : StateEnum := .INITIALIZING
  stateDetail : String := ""
  deriving DecidableEq, Repr

/-- The members all threads see. `notified` has the `statusChanged` calls so far, the latest
first. -/
structure Shared (L : Type) where
  status : StatusData := {}
  listeners : List L := []
  running : Bool := false
  shutdownRequested : Bool := false
  closed : Bool := false
  notified : List (L × StatusData) := []
  deriving DecidableEq, Repr

/-- The part of `transitionState` under the mutex, with the snapshot to notify. -/
def Shared.transitionState {L : Type} (sh : Shared L) (newState : StateEnum) (detail : String) :
    Shared L × List L :=
  if sh.status.state = newState then (sh, [])
  else ({ sh with status := ⟨newState, detail⟩ }, sh.listeners)

/-- The listener returns: one that throws or blocks would end or hold the thread that calls it. -/
def Shared.statusChanged {L : Type} (sh : Shared L) (listener : L) (newStatus : StatusData) :
    Shared L :=
  { sh with notified := (listener, newStatus) :: sh.notified }

def shutdownStatus : StatusData := ⟨.FAILED, "Shutdown requested"⟩
def participantError : StatusData := ⟨.INOPERABLE, "DDS participant error"⟩

inductive AppPc (L : Type)
  | idle
  | adding (listener : L) (current : StatusData)
  | requested
  | notifying (rest : List L) (data : StatusData)
  | joining
  deriving DecidableEq, Repr

inductive MonitorPc (L : Type)
  | top
  | waiting
  | woken
  | checking
  | threw
  | notifying (rest : List L) (data : StatusData)
  | returned
  deriving DecidableEq, Repr

section Steps

variable {L : Type}

def appStep (sh : Shared L) (monitor : MonitorPc L) : AppPc L → Option (Shared L × AppPc L)
  | .idle => none
  | .adding listener current => some (sh.statusChanged listener current, .idle)
  | .requested =>
      let (sh, snapshot) := sh.transitionState .FAILED "Shutdown requested"
      some (sh, .notifying snapshot shutdownStatus)
  | .notifying (listener :: rest) data =>
      some (sh.statusChanged listener data, .notifying rest data)
  | .notifying [] _ => some ({ sh with running := false }, .joining)
  | .joining =>
      match monitor with
      | .returned => some ({ sh with closed := true }, .idle)
      | _ => none

def monitorStep (threw : Bool) (sh : Shared L) : MonitorPc L → Option (Shared L × MonitorPc L)
  | .top => some (sh, if sh.running then .waiting else .returned)
  | .waiting => some (sh, .woken)
  | .woken => some (sh, if sh.running then .checking else .returned)
  | .checking => some (sh, if threw then .threw else .top)
  | .threw =>
      let (sh, snapshot) := sh.transitionState .INOPERABLE "DDS participant error"
      some (sh, .notifying snapshot participantError)
  | .notifying (listener :: rest) data =>
      some (sh.statusChanged listener data, .notifying rest data)
  | .notifying [] _ => some (sh, .top)
  | .returned => none

end Steps

structure Connection (Tid L : Type) where
  shared : Shared L
  app : Tid → AppPc L
  monitor : MonitorPc L

inductive Label (Tid L : Type)
  | addStatusListener (t : Tid) (listener : L)
  | removeStatusListener (listener : L)
  | shutdown (t : Tid)
  | app (t : Tid)
  | monitor (threw : Bool)
  deriving DecidableEq, Repr

section Machine

variable {Tid L : Type}

def Connection.getStatus (c : Connection Tid L) : StatusData := c.shared.status

/-- The constructor has returned: two transitions without listeners, then the monitor. -/
def constructed : Connection Tid L :=
  let (starting, _) := ({} : Shared L).transitionState .INITIALIZING "Starting up"
  let (ready, _) := starting.transitionState .NORMAL "Ready"
  ⟨{ ready with running := true }, fun _ => .idle, .top⟩

variable [DecidableEq Tid] [DecidableEq L]

def step (c : Connection Tid L) : Label Tid L → Option (Connection Tid L)
  | .addStatusListener t listener =>
      match c.app t with
      | .idle =>
          some { c with
            shared := { c.shared with listeners := c.shared.listeners ++ [listener] }
            app := Function.update c.app t (.adding listener c.shared.status) }
      | _ => none
  | .removeStatusListener listener =>
      some { c with
        shared := { c.shared with listeners := c.shared.listeners.filter (· ≠ listener) } }
  | .shutdown t =>
      match c.app t with
      | .idle =>
          if c.shared.shutdownRequested then some c
          else
            some { c with
              shared := { c.shared with shutdownRequested := true }
              app := Function.update c.app t .requested }
      | _ => none
  | .app t => do
      let (shared, pc) ← appStep c.shared c.monitor (c.app t)
      pure { c with shared := shared, app := Function.update c.app t pc }
  | .monitor threw => do
      let (shared, pc) ← monitorStep threw c.shared c.monitor
      pure { c with shared := shared, monitor := pc }

end Machine

inductive Thread (Tid : Type)
  | app (t : Tid)
  | monitor
  deriving DecidableEq, Repr

/-- The `statusChanged` calls still to be made. -/
def AppPc.owes {L : Type} : AppPc L → List (L × StatusData)
  | .adding listener current => [(listener, current)]
  | .notifying rest data => rest.map fun listener => (listener, data)
  | _ => []

def MonitorPc.owes {L : Type} : MonitorPc L → List (L × StatusData)
  | .notifying rest data => rest.map fun listener => (listener, data)
  | _ => []

section Machine

variable {Tid L : Type}

def Connection.owes (c : Connection Tid L) : Thread Tid → List (L × StatusData)
  | .app t => (c.app t).owes
  | .monitor => c.monitor.owes

def Label.thread : Label Tid L → Option (Thread Tid)
  | .app t => some (.app t)
  | .monitor _ => some .monitor
  | _ => none

def Connection.Idle (c : Connection Tid L) : Prop :=
  (∀ t, c.app t = .idle) ∧ ∀ rest data, c.monitor ≠ .notifying rest data

def Connection.lastStatus [DecidableEq L] (c : Connection Tid L) (listener : L) :
    Option StatusData :=
  c.shared.notified.lookup listener

/-- The listeners know the status when nothing is going on. -/
def Connection.UpToDate [DecidableEq L] (c : Connection Tid L) : Prop :=
  c.Idle → ∀ listener ∈ c.shared.listeners, c.lastStatus listener = some c.getStatus

/-- Every listener knows the status or is still to be told. -/
def Connection.Informed [DecidableEq L] (c : Connection Tid L) : Prop :=
  ∀ listener ∈ c.shared.listeners, c.lastStatus listener = some c.getStatus ∨
    ∃ thread, (listener, c.getStatus) ∈ c.owes thread

/-- A `statusChanged` call that a registered listener gets brings the current status, or
another one that does is still to come. -/
def InTime (c : Connection Tid L) (label : Label Tid L) : Prop :=
  ∀ thread listener data rest, label.thread = some thread →
    c.owes thread = (listener, data) :: rest → listener ∈ c.shared.listeners →
    data = c.getStatus ∨ (listener, c.getStatus) ∈ rest ∨
      ∃ other, other ≠ thread ∧ (listener, c.getStatus) ∈ c.owes other

end Machine

/-- A step inside a call, with the notifications it owed before and owes after. -/
inductive Acts {L : Type} (sh : Shared L) (before : List (L × StatusData)) (sh' : Shared L)
    (after : List (L × StatusData)) : Prop
  | quiet (status : sh'.status = sh.status) (listeners : sh'.listeners = sh.listeners)
      (notified : sh'.notified = sh.notified) (owed : before = []) (owes : after = [])
  | changed (listeners : sh'.listeners = sh.listeners) (owed : before = [])
      (owes : after = sh.listeners.map fun listener => (listener, sh'.status))
  | delivered (listener : L) (data : StatusData) (status : sh'.status = sh.status)
      (listeners : sh'.listeners = sh.listeners)
      (notified : sh'.notified = (listener, data) :: sh.notified)
      (owed : before = (listener, data) :: after)

section Calls

variable {L : Type}

theorem Acts.transitionState (sh : Shared L) (newState : StateEnum) (detail : String) :
    Acts sh [] (sh.transitionState newState detail).1
      ((sh.transitionState newState detail).2.map fun listener =>
        (listener, ⟨newState, detail⟩)) := by
  unfold Shared.transitionState
  split
  · exact .quiet rfl rfl rfl rfl rfl
  · exact .changed rfl rfl rfl

theorem appStep_acts {sh sh' : Shared L} {monitor : MonitorPc L} {pc pc' : AppPc L}
    (taken : appStep sh monitor pc = some (sh', pc')) : Acts sh pc.owes sh' pc'.owes := by
  cases pc with
  | idle => cases taken
  | adding listener current =>
      cases taken
      exact .delivered listener current rfl rfl rfl rfl
  | requested =>
      cases taken
      exact Acts.transitionState sh .FAILED "Shutdown requested"
  | notifying rest data =>
      cases rest with
      | nil =>
          cases taken
          exact .quiet rfl rfl rfl rfl rfl
      | cons listener rest =>
          cases taken
          exact .delivered listener data rfl rfl rfl rfl
  | joining =>
      cases monitor with
      | returned =>
          cases taken
          exact .quiet rfl rfl rfl rfl rfl
      | _ => cases taken

theorem monitorStep_acts {threw : Bool} {sh sh' : Shared L} {pc pc' : MonitorPc L}
    (taken : monitorStep threw sh pc = some (sh', pc')) : Acts sh pc.owes sh' pc'.owes := by
  cases pc with
  | returned => cases taken
  | threw =>
      cases taken
      exact Acts.transitionState sh .INOPERABLE "DDS participant error"
  | notifying rest data =>
      cases rest with
      | nil =>
          cases taken
          exact .quiet rfl rfl rfl rfl rfl
      | cons listener rest =>
          cases taken
          exact .delivered listener data rfl rfl rfl rfl
  | waiting =>
      cases taken
      exact .quiet rfl rfl rfl rfl rfl
  | top | woken | checking =>
      cases taken
      split
      · exact .quiet rfl rfl rfl rfl rfl
      · exact .quiet rfl rfl rfl rfl rfl

end Calls

inductive Moved {Tid L : Type} [DecidableEq Tid] (c : Connection Tid L) (label : Label Tid L)
    (next : Connection Tid L) : Prop
  | apart (none : label.thread = none) (status : next.getStatus = c.getStatus)
      (fewer : next.shared.listeners ⊆ c.shared.listeners)
      (notified : next.shared.notified = c.shared.notified) (owes : next.owes = c.owes)
  | added (t : Tid) (listener : L) (none : label.thread = none)
      (status : next.getStatus = c.getStatus)
      (listeners : next.shared.listeners = c.shared.listeners ++ [listener])
      (notified : next.shared.notified = c.shared.notified) (owed : c.owes (.app t) = [])
      (owes : next.owes = Function.update c.owes (.app t) [(listener, c.getStatus)])
  | acts (thread : Thread Tid) (after : List (L × StatusData))
      (does : label.thread = some thread)
      (acts : Acts c.shared (c.owes thread) next.shared after)
      (owes : next.owes = Function.update c.owes thread after)

section Notifications

variable {Tid L : Type} {c next : Connection Tid L}

theorem InTime.of_current {label : Label Tid L}
    (current : ∀ thread, label.thread = some thread → ∀ told ∈ c.owes thread,
      told.2 = c.getStatus) : InTime c label := by
  intro thread listener data rest does owed member
  refine Or.inl (current thread does (listener, data) ?_)
  rw [owed]
  exact List.mem_cons_self

theorem InTime.of_nothing {label : Label Tid L}
    (nothing : ∀ thread, label.thread = some thread → c.owes thread = []) : InTime c label := by
  apply InTime.of_current
  intro thread does told among
  rw [nothing thread does] at among
  cases among

variable [DecidableEq L]

theorem lastStatus_told {listener other : L} {data : StatusData}
    (notified : next.shared.notified = (listener, data) :: c.shared.notified) :
    next.lastStatus other = if other = listener then some data else c.lastStatus other := by
  unfold Connection.lastStatus
  rw [notified, List.lookup_cons]
  by_cases same : other = listener
  · simp [same]
  · rw [if_neg same, beq_false_of_ne same]

theorem lastStatus_same {listener : L} (notified : next.shared.notified = c.shared.notified) :
    next.lastStatus listener = c.lastStatus listener := by
  unfold Connection.lastStatus
  rw [notified]

theorem Connection.Informed.upToDate (informed : c.Informed) : c.UpToDate := by
  intro idle listener member
  rcases informed listener member with knows | ⟨thread, later⟩
  · exact knows
  · cases thread with
    | app t => simp [Connection.owes, idle.1 t, AppPc.owes] at later
    | monitor =>
        cases stands : c.monitor with
        | notifying rest data => exact absurd stands (idle.2 rest data)
        | _ => simp [Connection.owes, stands, MonitorPc.owes] at later

theorem constructed_informed : (constructed : Connection Tid L).Informed := by
  intro listener member
  cases member

end Notifications

section Moves

variable {Tid L : Type} [DecidableEq Tid] {c next : Connection Tid L}

theorem owes_app (t : Tid) (shared : Shared L) (pc : AppPc L) :
    Connection.owes ⟨shared, Function.update c.app t pc, c.monitor⟩ =
      Function.update c.owes (.app t) pc.owes := by
  funext thread
  cases thread with
  | app other =>
      by_cases same : other = t
      · simp [Connection.owes, same]
      · simp [Connection.owes, same]
  | monitor => simp [Connection.owes]

theorem owes_monitor (shared : Shared L) (pc : MonitorPc L) :
    Connection.owes ⟨shared, c.app, pc⟩ = Function.update c.owes .monitor pc.owes := by
  funext thread
  cases thread with
  | app other => simp [Connection.owes]
  | monitor => simp [Connection.owes]

theorem owes_kept {thread other : Thread Tid} {after : List (L × StatusData)}
    {told : L × StatusData} (owes : next.owes = Function.update c.owes thread after)
    (kept : told ∈ c.owes thread → told ∈ after) (owed : told ∈ c.owes other) :
    told ∈ next.owes other := by
  rw [owes]
  by_cases same : other = thread
  · rw [same, Function.update_self]
    exact kept (same ▸ owed)
  · rw [Function.update_of_ne same]
    exact owed

variable [DecidableEq L]

theorem step_moved {label : Label Tid L} (taken : step c label = some next) :
    Moved c label next := by
  cases label with
  | addStatusListener t listener =>
      cases stands : c.app t with
      | idle =>
          simp only [step, stands, Option.some.injEq] at taken
          have owed : c.owes (.app t) = [] := by simp [Connection.owes, stands, AppPc.owes]
          rw [← taken]
          exact .added t listener rfl rfl rfl rfl owed (owes_app t _ _)
      | _ => simp [step, stands] at taken
  | removeStatusListener listener =>
      cases taken
      exact .apart rfl rfl (List.filter_subset_self _) rfl rfl
  | shutdown t =>
      cases stands : c.app t with
      | idle =>
          by_cases already : c.shared.shutdownRequested = true
          · simp only [step, stands, already, if_true, Option.some.injEq] at taken
            rw [← taken]
            exact .apart rfl rfl (List.Subset.refl _) rfl rfl
          · simp only [step, stands, already, Bool.false_eq_true, if_false, Option.some.injEq] at taken
            have same : c.owes = Function.update c.owes (.app t) [] := by
              have owed : c.owes (.app t) = [] := by simp [Connection.owes, stands, AppPc.owes]
              rw [← owed, Function.update_eq_self]
            rw [← taken]
            refine .apart rfl rfl (List.Subset.refl _) rfl ?_
            rw [same]
            exact owes_app t _ _
      | _ => simp [step, stands] at taken
  | app t =>
      rcases Option.bind_eq_some_iff.mp taken with ⟨⟨shared, pc⟩, went, same⟩
      cases same
      exact .acts (.app t) pc.owes rfl (appStep_acts went) (owes_app t shared pc)
  | monitor threw =>
      rcases Option.bind_eq_some_iff.mp taken with ⟨⟨shared, pc⟩, went, same⟩
      cases same
      exact .acts .monitor pc.owes rfl (monitorStep_acts went) (owes_monitor shared pc)

theorem informed_told {label : Label Tid L} {thread : Thread Tid} {listener : L}
    {data : StatusData} {rest : List (L × StatusData)} (informed : c.Informed)
    (does : label.thread = some thread) (owed : c.owes thread = (listener, data) :: rest)
    (status : next.getStatus = c.getStatus)
    (listeners : next.shared.listeners = c.shared.listeners)
    (notified : next.shared.notified = (listener, data) :: c.shared.notified)
    (owes : next.owes = Function.update c.owes thread rest) :
    next.Informed ↔ InTime c label := by
  constructor
  · intro after thread' listener' data' rest' does' owed' member
    rw [does] at does'
    injection does' with sameThread
    subst sameThread
    rw [owed] at owed'
    injection owed' with sameHead sameRest
    injection sameHead with sameListener sameData
    subst sameListener sameData sameRest
    rcases after listener (listeners ▸ member) with told | ⟨other, told⟩
    · rw [lastStatus_told notified, if_pos rfl, status] at told
      injection told with current
      exact Or.inl current
    · rw [status, owes] at told
      by_cases same : other = thread
      · rw [same, Function.update_self] at told
        exact Or.inr (Or.inl told)
      · rw [Function.update_of_ne same] at told
        exact Or.inr (Or.inr ⟨other, same, told⟩)
  · intro inTime other member
    rw [listeners] at member
    rw [lastStatus_told notified, status]
    by_cases isTold : other = listener
    · rw [if_pos isTold]
      subst isTold
      rcases inTime thread other data rest does owed member with current | later | elsewhere
      · exact Or.inl (congrArg some current)
      · refine Or.inr ⟨thread, ?_⟩
        rw [owes, Function.update_self]
        exact later
      · rcases elsewhere with ⟨third, different, later⟩
        refine Or.inr ⟨third, ?_⟩
        rw [owes, Function.update_of_ne different]
        exact later
    · rw [if_neg isTold]
      rcases informed other member with knows | ⟨third, later⟩
      · exact Or.inl knows
      · refine Or.inr ⟨third, owes_kept owes ?_ later⟩
        intro among
        rw [owed] at among
        rcases List.mem_cons.mp among with same | behind
        · injection same with same
          exact absurd same isTold
        · exact behind

/-- A step leaves a listener with an old status exactly when it tells one too late. -/
theorem informed_step {label : Label Tid L} (informed : c.Informed)
    (moved : Moved c label next) : next.Informed ↔ InTime c label := by
  cases moved with
  | apart none status fewer notified owes =>
      refine iff_of_true ?_ (InTime.of_nothing (by simp [none]))
      intro listener member
      rw [lastStatus_same notified, status, owes]
      exact informed listener (fewer member)
  | added t added none status listeners notified owed owes =>
      refine iff_of_true ?_ (InTime.of_nothing (by simp [none]))
      intro listener member
      rw [lastStatus_same notified, status]
      rw [listeners, List.mem_append, List.mem_singleton] at member
      rcases member with old | same
      · rcases informed listener old with knows | ⟨thread, later⟩
        · exact Or.inl knows
        · exact Or.inr ⟨thread, owes_kept owes (by simp [owed]) later⟩
      · refine Or.inr ⟨.app t, ?_⟩
        rw [owes, Function.update_self, same]
        exact List.mem_singleton.mpr rfl
  | acts thread after does acts owes =>
      cases acts with
      | quiet status listeners notified owed none =>
          refine iff_of_true ?_ (InTime.of_nothing ?_)
          · intro listener member
            rw [listeners] at member
            have sameStatus : next.getStatus = c.getStatus := status
            rw [lastStatus_same notified, sameStatus]
            rcases informed listener member with knows | ⟨thread, later⟩
            · exact Or.inl knows
            · exact Or.inr ⟨thread, owes_kept owes (by simp [owed]) later⟩
          · intro other does'
            rw [does] at does'
            injection does' with same
            rw [← same, owed]
      | changed listeners owed everybody =>
          refine iff_of_true ?_ (InTime.of_nothing ?_)
          · intro listener member
            rw [listeners] at member
            refine Or.inr ⟨thread, ?_⟩
            rw [owes, Function.update_self, everybody]
            exact List.mem_map.mpr ⟨listener, member, rfl⟩
          · intro other does'
            rw [does] at does'
            injection does' with same
            rw [← same, owed]
      | delivered listener data status listeners notified owed =>
          exact informed_told informed does owed status listeners notified owes

end Moves

section Runs

variable {Tid L : Type} [DecidableEq Tid] [DecidableEq L]

/-- No listener is ever left with an old status exactly when every `statusChanged` call is in
time, and then all of them know the status whenever nothing is going on. -/
theorem listeners_upToDate {labels : List (Label Tid L)} {last : Connection Tid L}
    (whole : run step constructed labels = some last) :
    (Throughout step Connection.Informed constructed labels ↔ Along step InTime constructed labels) ∧
      (Along step InTime constructed labels →
        Throughout step Connection.UpToDate constructed labels) := by
  have exact : ∀ (s : Connection Tid L) label next, True → s.Informed →
      step s label = some next → (next.Informed ↔ InTime s label) := by
    intro s label next _ informed taken
    exact informed_step informed (step_moved taken)
  have iff := throughout_iff_along (fun _ _ _ _ _ => trivial) exact trivial
    constructed_informed whole
  refine ⟨iff, ?_⟩
  intro inTime
  exact (iff.mpr inTime).mono fun _ informed => informed.upToDate

/-- A listener is registered, the monitor tells it that the participant failed, and then it
gets the status it was registered under. -/
def overtaken : List (Label Unit Nat) :=
  [.addStatusListener () 7] ++ List.replicate 7 (.monitor true) ++ [.app ()]

theorem ready_after_inoperable : ∃ last,
    run step constructed overtaken = some last ∧ ¬ last.UpToDate := by
  refine ⟨_, rfl, ?_⟩
  intro upToDate
  have idle := upToDate ⟨fun _ => rfl, nofun⟩ 7 (by decide)
  revert idle
  decide

/-- The listener is called at once, then the connection is shut down. -/
theorem listeners_upToDate_track :
    Throughout step Connection.UpToDate constructed
      ([.addStatusListener () 7, .app (), .shutdown (), .app (), .app ()] : List (Label Unit Nat)) := by
  apply (listeners_upToDate rfl).2
  refine along_cons rfl ?_ (along_cons rfl ?_ (along_cons rfl ?_ (along_cons rfl ?_
    (along_cons rfl ?_ trivial))))
  all_goals
    apply InTime.of_current
    intro thread does
    cases does
    try decide

end Runs

end Arcal.Dds.Status
