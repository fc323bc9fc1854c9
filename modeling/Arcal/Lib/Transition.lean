import Mathlib.Data.List.Basic
import Mathlib.Logic.Function.Basic

/-! Machines that several threads drive: a partial step function on states, the runs that a
list of labels makes, and mutexes that know their holder. -/

namespace Arcal.Transition

section Runs

variable {State Label : Type} (step : State → Label → Option State)

/-- Take the labels in turn; a label that is not enabled stops the run. -/
def run : State → List Label → Option State
  | s, [] => some s
  | s, label :: rest => (step s label).bind fun next => run next rest

/-- Every step of the run meets the condition on the state it is taken in. -/
def Along (condition : State → Label → Prop) : State → List Label → Prop
  | _, [] => True
  | s, label :: rest =>
      condition s label ∧ ∀ next, step s label = some next → Along condition next rest

variable {step}

theorem run_cons_eq_some {s last : State} {label : Label} {rest : List Label} :
    run step s (label :: rest) = some last ↔
      ∃ next, step s label = some next ∧ run step next rest = some last :=
  Option.bind_eq_some_iff

theorem run_append {s mid : State} {first second : List Label}
    (start : run step s first = some mid) : run step s (first ++ second) = run step mid second := by
  induction first generalizing s with
  | nil =>
      injection start with same
      rw [same, List.nil_append]
  | cons label rest ih =>
      obtain ⟨next, taken, more⟩ := run_cons_eq_some.mp start
      rw [List.cons_append, run, taken]
      exact ih more

variable (step) in
def Reaches (s last : State) : Prop := ∃ labels, run step s labels = some last

theorem Reaches.refl (s : State) : Reaches step s s := ⟨[], rfl⟩

theorem Reaches.trans {s mid last : State} (first : Reaches step s mid)
    (second : Reaches step mid last) : Reaches step s last := by
  rcases first with ⟨labels, start⟩
  rcases second with ⟨more, rest⟩
  exact ⟨labels ++ more, (run_append start).trans rest⟩

theorem Reaches.of_step {s next : State} {label : Label} (taken : step s label = some next) :
    Reaches step s next := ⟨[label], run_cons_eq_some.mpr ⟨next, taken, rfl⟩⟩

theorem along_cons {condition : State → Label → Prop} {s next : State} {label : Label}
    {rest : List Label} (taken : step s label = some next) (met : condition s label)
    (later : Along step condition next rest) : Along step condition s (label :: rest) := by
  refine ⟨met, ?_⟩
  intro other same
  rw [taken] at same
  injection same with same
  rw [← same]
  exact later

theorem along_of_forall {condition : Label → Prop} {labels : List Label}
    (all : ∀ label ∈ labels, condition label) (s : State) :
    Along step (fun _ label => condition label) s labels := by
  induction labels generalizing s with
  | nil => trivial
  | cons label rest ih =>
      refine ⟨all label List.mem_cons_self, ?_⟩
      intro next _
      exact ih (fun other inside => all other (List.mem_cons_of_mem _ inside)) next

theorem Along.append {condition : State → Label → Prop} {s mid : State}
    {before after : List Label} (met : Along step condition s before)
    (there : run step s before = some mid) (later : Along step condition mid after) :
    Along step condition s (before ++ after) := by
  induction before generalizing s with
  | nil =>
      injection there with same
      rw [same]
      exact later
  | cons label rest ih =>
      obtain ⟨next, taken, more⟩ := run_cons_eq_some.mp there
      exact along_cons taken met.1 (ih (met.2 next taken) more)

theorem Along.start {condition : State → Label → Prop} {s mid : State}
    {before after : List Label} (met : Along step condition s (before ++ after))
    (there : run step s before = some mid) : Along step condition s before := by
  induction before generalizing s with
  | nil => trivial
  | cons label rest ih =>
      obtain ⟨next, taken, more⟩ := run_cons_eq_some.mp there
      exact along_cons taken met.1 (ih (met.2 next taken) more)

theorem run_keeps {condition : State → Label → Prop} {inv : State → Prop}
    (keeps : ∀ s label next, inv s → condition s label → step s label = some next → inv next)
    {s last : State} {labels : List Label} (start : inv s)
    (met : Along step condition s labels) (whole : run step s labels = some last) : inv last := by
  induction labels generalizing s with
  | nil =>
      injection whole with same
      rw [← same]
      exact start
  | cons label rest ih =>
      obtain ⟨next, taken, more⟩ := run_cons_eq_some.mp whole
      exact ih (keeps s label next start met.1 taken) (met.2 next taken) more

theorem run_invariant {inv : State → Prop}
    (keeps : ∀ s label next, inv s → step s label = some next → inv next)
    {s last : State} {labels : List Label} (start : inv s)
    (whole : run step s labels = some last) : inv last := by
  induction labels generalizing s with
  | nil =>
      injection whole with same
      rw [← same]
      exact start
  | cons label rest ih =>
      obtain ⟨next, taken, more⟩ := run_cons_eq_some.mp whole
      exact ih (keeps s label next start taken) more

/-- A property that a step loses exactly when it does not meet the condition, and that no
step brings back, holds at the end of a run exactly when all steps met the condition. -/
theorem run_iff_along {condition : State → Label → Prop} {inv good : State → Prop}
    (keeps : ∀ s label next, inv s → step s label = some next → inv next)
    (loses : ∀ s label next, inv s → step s label = some next →
      (good next ↔ good s ∧ condition s label))
    {s last : State} {labels : List Label} (start : inv s)
    (whole : run step s labels = some last) :
    good last ↔ good s ∧ Along step condition s labels := by
  induction labels generalizing s with
  | nil =>
      injection whole with same
      rw [← same]
      exact (and_iff_left trivial).symm
  | cons label rest ih =>
      obtain ⟨next, taken, more⟩ := run_cons_eq_some.mp whole
      rw [ih (keeps s label next start taken) more, loses s label next start taken]
      constructor
      · intro given
        exact ⟨given.1.1, along_cons taken given.1.2 given.2⟩
      · intro given
        exact ⟨⟨given.1, given.2.1⟩, given.2.2 next taken⟩

variable (step) in
/-- The property holds in every state the run goes through. -/
def Throughout (good : State → Prop) : State → List Label → Prop
  | s, [] => good s
  | s, label :: rest =>
      good s ∧ ∀ next, step s label = some next → Throughout good next rest

theorem Throughout.head {good : State → Prop} {s : State} {labels : List Label}
    (all : Throughout step good s labels) : good s := by
  cases labels with
  | nil => exact all
  | cons label rest => exact all.1

theorem Throughout.mono {good better : State → Prop} {s : State} {labels : List Label}
    (all : Throughout step good s labels) (implies : ∀ s, good s → better s) :
    Throughout step better s labels := by
  induction labels generalizing s with
  | nil => exact implies s all
  | cons label rest ih =>
      refine ⟨implies s all.1, ?_⟩
      intro next taken
      exact ih (all.2 next taken)

theorem Throughout.last {good : State → Prop} {s last : State} {labels : List Label}
    (all : Throughout step good s labels) (whole : run step s labels = some last) : good last := by
  induction labels generalizing s with
  | nil =>
      injection whole with same
      rw [← same]
      exact all
  | cons label rest ih =>
      obtain ⟨next, taken, more⟩ := run_cons_eq_some.mp whole
      exact ih (all.2 next taken) more

theorem throughout_of_prefixes {good : State → Prop} {s : State} {labels : List Label}
    (ends : ∀ before after mid, labels = before ++ after → run step s before = some mid →
      good mid) : Throughout step good s labels := by
  induction labels generalizing s with
  | nil => exact ends [] [] s rfl rfl
  | cons label rest ih =>
      refine ⟨ends [] (label :: rest) s rfl rfl, ?_⟩
      intro next taken
      apply ih
      intro before after mid same there
      refine ends (label :: before) after mid ?_ (run_cons_eq_some.mpr ⟨next, taken, there⟩)
      rw [same, List.cons_append]

/-- A property that a step from a good state keeps exactly when it meets the condition holds
all along a run exactly when all steps meet the condition. -/
theorem throughout_iff_along {condition : State → Label → Prop} {inv good : State → Prop}
    (keeps : ∀ s label next, inv s → step s label = some next → inv next)
    (exact : ∀ s label next, inv s → good s → step s label = some next →
      (good next ↔ condition s label))
    {s last : State} {labels : List Label} (start : inv s) (isGood : good s)
    (whole : run step s labels = some last) :
    Throughout step good s labels ↔ Along step condition s labels := by
  induction labels generalizing s with
  | nil => exact ⟨fun _ => trivial, fun _ => isGood⟩
  | cons label rest ih =>
      obtain ⟨next, taken, more⟩ := run_cons_eq_some.mp whole
      have here := exact s label next start isGood taken
      have later := fun nextGood => ih (keeps s label next start taken) nextGood more
      constructor
      · intro all
        have nextAll := all.2 next taken
        exact along_cons taken (here.mp nextAll.head) ((later nextAll.head).mp nextAll)
      · intro met
        refine ⟨isGood, ?_⟩
        intro other same
        rw [taken] at same
        injection same with same
        rw [← same]
        exact (later (here.mpr met.1)).mpr (met.2 next taken)

/-- Where each marked step lowers the rank and no step raises it, a run has at most as many
marked steps as the rank it starts from. -/
theorem run_marked_le (rank : State → Nat) (marked : Label → Bool) {inv : State → Prop}
    (keeps : ∀ s label next, inv s → step s label = some next → inv next)
    (lowers : ∀ s label next, inv s → step s label = some next →
      rank next + (if marked label then 1 else 0) ≤ rank s)
    {s last : State} {labels : List Label} (start : inv s)
    (whole : run step s labels = some last) : rank last + labels.countP marked ≤ rank s := by
  induction labels generalizing s with
  | nil =>
      injection whole with same
      rw [← same]
      exact Nat.le_refl _
  | cons label rest ih =>
      obtain ⟨next, taken, more⟩ := run_cons_eq_some.mp whole
      have here := lowers s label next start taken
      have later := ih (keeps s label next start taken) more
      calc rank last + (label :: rest).countP marked
          = rank last + rest.countP marked + (if marked label then 1 else 0) := by
            rw [List.countP_cons, Nat.add_assoc]
        _ ≤ rank next + (if marked label then 1 else 0) := Nat.add_le_add_right later _
        _ ≤ rank s := here

end Runs

section Views

variable {State Label View Move : Type} (step : State → Label → Option State)
  (moves : State → Label → List Move)

/-- The moves that the steps of a run are for one of its parts. -/
def movesAlong : State → List Label → List Move
  | _, [] => []
  | s, label :: rest =>
      moves s label ++ ((step s label).elim [] fun next => movesAlong next rest)

variable {step moves}

theorem movesAlong_cons {s next : State} {label : Label} {rest : List Label}
    (taken : step s label = some next) :
    movesAlong step moves s (label :: rest) = moves s label ++ movesAlong step moves next rest := by
  rw [movesAlong, taken]
  rfl

/-- Where the part follows each step with the moves that the step is for it, it follows a
whole run with those of the run. -/
theorem run_view {part : View → Move → Option View} (view : State → View) {inv : State → Prop}
    (keeps : ∀ s label next, inv s → step s label = some next → inv next)
    (sees : ∀ s label next, inv s → step s label = some next →
      run part (view s) (moves s label) = some (view next))
    {s last : State} {labels : List Label} (start : inv s)
    (whole : run step s labels = some last) :
    run part (view s) (movesAlong step moves s labels) = some (view last) := by
  induction labels generalizing s with
  | nil =>
      injection whole with same
      rw [← same]
      rfl
  | cons label rest ih =>
      obtain ⟨next, taken, more⟩ := run_cons_eq_some.mp whole
      rw [movesAlong_cons taken, run_append (sees s label next start taken)]
      exact ih (keeps s label next start taken) more

end Views

section Mutexes

variable {Thread : Type}

/-- The mutex is held by the one thread that is inside, if any is. -/
def Exclusive (mutex : Option Thread) (inside : Thread → Bool) : Prop :=
  ∀ thread, mutex = some thread ↔ inside thread = true

/-- What one step of a thread may do to a mutex: nothing, take it when it is free, or give
it back. -/
inductive LockMove (thread : Thread) : Option Thread → Bool → Option Thread → Bool → Prop
  | stay (mutex : Option Thread) (inside : Bool) : LockMove thread mutex inside mutex inside
  | lock : LockMove thread none false (some thread) true
  | unlock (mutex : Option Thread) : LockMove thread mutex true none false

theorem Exclusive.unique {mutex : Option Thread} {inside : Thread → Bool}
    (exclusive : Exclusive mutex inside) {one other : Thread} (oneIn : inside one = true)
    (otherIn : inside other = true) : one = other := by
  have held := (exclusive one).mpr oneIn
  rw [(exclusive other).mpr otherIn] at held
  exact (Option.some.inj held).symm

theorem Exclusive.move {mutex mutex' : Option Thread} {inside inside' : Thread → Bool}
    (exclusive : Exclusive mutex inside) {thread : Thread} {before after : Bool}
    (stands : inside thread = before) (moved : LockMove thread mutex before mutex' after)
    (stands' : inside' thread = after)
    (others : ∀ other, other ≠ thread → inside' other = inside other) :
    Exclusive mutex' inside' := by
  intro other
  by_cases self : other = thread
  · subst self
    rw [stands']
    cases moved with
    | stay => rw [← stands]; exact exclusive other
    | lock => simp
    | unlock => simp
  · rw [others other self]
    cases moved with
    | stay => exact exclusive other
    | lock =>
        have free := exclusive other
        simp only [reduceCtorEq, false_iff] at free
        simp [free, Ne.symm self]
    | unlock =>
        have alone : ¬ inside other = true := fun isIn => self (exclusive.unique isIn stands)
        simp [alone]

end Mutexes

end Arcal.Transition
