import Mathlib.Data.List.Basic
import Mathlib.Logic.Function.Basic
import Mathlib.Logic.Relation

/-! Resources that pass from hand to hand: each is made once, is in one hand at a time, and
is given up once. -/

namespace Ownership

inductive Event (R : Type)
  | made (r : R)
  | closed (r : R)
  | closeThrew (r : R)
  | destroyed (r : R)
  deriving DecidableEq, Repr

variable {O R : Type}

def Event.resource : Event R → R
  | .made r | .closed r | .closeThrew r | .destroyed r => r

/-- How a resource is given up: it is closed as often as its kind asks and then destroyed, or
left alone after the first closing call that fails. -/
def ending (closings : ℕ) (fails : Option ℕ) (r : R) : List (Event R) :=
  match fails.filter (· < closings) with
  | some done => List.replicate done (.closed r) ++ [.closeThrew r]
  | none => List.replicate closings (.closed r) ++ [.destroyed r]

/-- What the owners hold, what nobody holds for now, and what has happened. -/
structure Books (O R : Type) where
  holds : O → Option R
  loose : R → Bool
  log : List (Event R)

variable [DecidableEq O] [DecidableEq R]

def Books.about (b : Books O R) (r : R) : List (Event R) :=
  b.log.filter fun event => event.resource = r

/-- What can happen to resources; `closings` tells how often each is closed before it is
destroyed. -/
inductive Move (closings : R → ℕ) (b : Books O R) : Books O R → Prop
  | make (r : R) (new : b.about r = []) :
      Move closings b
        { b with loose := Function.update b.loose r true, log := b.log ++ [.made r] }
  | take (o : O) (r : R) (free : b.loose r = true) (empty : b.holds o = none) :
      Move closings b
        { b with
          holds := Function.update b.holds o (some r)
          loose := Function.update b.loose r false }
  | drop (o : O) (r : R) (has : b.holds o = some r) :
      Move closings b
        { b with
          holds := Function.update b.holds o none
          loose := Function.update b.loose r true }
  | pass (source target : O) (r : R) (has : b.holds source = some r)
      (empty : b.holds target = none) :
      Move closings b
        { b with
          holds := Function.update (Function.update b.holds source none) target (some r) }
  | retire (o : O) (r : R) (fails : Option ℕ) (has : b.holds o = some r) :
      Move closings b
        { b with
          holds := Function.update b.holds o none
          log := b.log ++ ending (closings r) fails r }

/-- Where a resource stands: not made yet, in nobody's hand, in one hand, or given up. -/
inductive Accounted (closings : R → ℕ) (b : Books O R) (r : R) : Prop
  | unknown (about : b.about r = []) (notLoose : b.loose r = false)
      (unheld : ∀ o, b.holds o ≠ some r)
  | loose (about : b.about r = [.made r]) (isLoose : b.loose r = true)
      (unheld : ∀ o, b.holds o ≠ some r)
  | held (o : O) (about : b.about r = [.made r]) (notLoose : b.loose r = false)
      (holder : ∀ other, b.holds other = some r ↔ other = o)
  | ended (fails : Option ℕ) (about : b.about r = .made r :: ending (closings r) fails r)
      (notLoose : b.loose r = false) (unheld : ∀ o, b.holds o ≠ some r)

def Balanced (closings : R → ℕ) (b : Books O R) : Prop := ∀ r, Accounted closings b r

section Facts

variable {closings : R → ℕ} {b b' : Books O R} {r : R}

omit [DecidableEq O] in
theorem Accounted.congr (accounted : Accounted closings b r) (about : b'.about r = b.about r)
    (loose : b'.loose r = b.loose r)
    (holds : ∀ o, b'.holds o = some r ↔ b.holds o = some r) : Accounted closings b' r := by
  cases accounted with
  | unknown empty notLoose unheld =>
      exact .unknown (about.trans empty) (loose.trans notLoose)
        fun o has => unheld o ((holds o).mp has)
  | loose made isLoose unheld =>
      exact .loose (about.trans made) (loose.trans isLoose)
        fun o has => unheld o ((holds o).mp has)
  | held o made notLoose holder =>
      exact .held o (about.trans made) (loose.trans notLoose)
        fun other => (holds other).trans (holder other)
  | ended fails made notLoose unheld =>
      exact .ended fails (about.trans made) (loose.trans notLoose)
        fun o has => unheld o ((holds o).mp has)

omit [DecidableEq O] in
theorem Accounted.of_loose (accounted : Accounted closings b r) (free : b.loose r = true) :
    b.about r = [.made r] ∧ ∀ o, b.holds o ≠ some r := by
  cases accounted with
  | unknown _ notLoose _ => simp [free] at notLoose
  | loose made _ unheld => exact ⟨made, unheld⟩
  | held _ _ notLoose _ => simp [free] at notLoose
  | ended _ _ notLoose _ => simp [free] at notLoose

omit [DecidableEq O] in
theorem Accounted.of_held (accounted : Accounted closings b r) {o : O} (has : b.holds o = some r) :
    b.about r = [.made r] ∧ b.loose r = false ∧ ∀ other, b.holds other = some r ↔ other = o := by
  cases accounted with
  | unknown _ _ unheld => exact absurd has (unheld o)
  | loose _ _ unheld => exact absurd has (unheld o)
  | held o' made notLoose holder =>
      have same := (holder o).mp has
      rw [same]
      exact ⟨made, notLoose, holder⟩
  | ended _ _ _ unheld => exact absurd has (unheld o)

omit [DecidableEq O] in
theorem Accounted.of_new (accounted : Accounted closings b r) (new : b.about r = []) :
    b.loose r = false ∧ ∀ o, b.holds o ≠ some r := by
  cases accounted with
  | unknown _ notLoose unheld => exact ⟨notLoose, unheld⟩
  | loose made _ _ => simp [new] at made
  | held _ made _ _ => simp [new] at made
  | ended _ made _ _ => simp [new] at made

omit [DecidableEq R] in
theorem holds_update {holds : O → Option R} {o : O} {value : Option R}
    (before : holds o ≠ some r) (after : value ≠ some r) (other : O) :
    Function.update holds o value other = some r ↔ holds other = some r := by
  by_cases same : other = o
  · subst same
    rw [Function.update_self]
    exact iff_of_false after before
  · rw [Function.update_of_ne same]

omit [DecidableEq R] in
theorem resource_of_ending {closings : ℕ} {fails : Option ℕ} {event : Event R}
    (inside : event ∈ ending closings fails r) : event.resource = r := by
  unfold ending at inside
  split at inside
  · rcases List.mem_append.mp inside with closing | last
    · rw [List.eq_of_mem_replicate closing, Event.resource]
    · rw [List.mem_singleton.mp last, Event.resource]
  · rcases List.mem_append.mp inside with closing | last
    · rw [List.eq_of_mem_replicate closing, Event.resource]
    · rw [List.mem_singleton.mp last, Event.resource]

theorem filter_ending_self (closings : ℕ) (fails : Option ℕ) (r : R) :
    (ending closings fails r).filter (fun event => event.resource = r) =
      ending closings fails r := by
  apply List.filter_eq_self.mpr
  intro event inside
  simp [resource_of_ending inside]

theorem filter_ending_other (closings : ℕ) (fails : Option ℕ) {r other : R} (apart : other ≠ r) :
    (ending closings fails r).filter (fun event => event.resource = other) = [] := by
  apply List.filter_eq_nil_iff.mpr
  intro event inside
  simp [resource_of_ending inside, apart.symm]

omit [DecidableEq R] in
theorem some_ne {r other : R} (apart : other ≠ r) : some r ≠ some other := fun same =>
  apart (Option.some.inj same).symm

omit [DecidableEq R] in
theorem unheld_of_emptied {holds : O → Option R} {o : O}
    (holder : ∀ other, holds other = some r ↔ other = o) (other : O) :
    Function.update holds o none other ≠ some r := by
  intro held
  by_cases here : other = o
  · rw [here, Function.update_self] at held
    cases held
  · rw [Function.update_of_ne here] at held
    exact here ((holder other).mp held)

theorem Move.balanced (move : Move closings b b') (balanced : Balanced closings b) :
    Balanced closings b' := by
  intro other
  cases move with
  | make r new =>
      by_cases same : other = r
      · subst same
        obtain ⟨_, unheld⟩ := (balanced other).of_new new
        refine .loose ?_ (Function.update_self ..) unheld
        simpa [Books.about, Event.resource] using new
      · refine (balanced other).congr ?_ (Function.update_of_ne same ..) fun _ => Iff.rfl
        simp [Books.about, Event.resource, Ne.symm same]
  | take o r free empty =>
      by_cases same : other = r
      · subst same
        obtain ⟨made, unheld⟩ := (balanced other).of_loose free
        refine .held o made (Function.update_self ..) fun holder => ?_
        by_cases here : holder = o
        · simp [here]
        · simpa [here] using unheld holder
      · refine (balanced other).congr rfl (Function.update_of_ne same ..) ?_
        exact holds_update (by rw [empty]; exact (Option.some_ne_none _).symm) (some_ne same)
  | drop o r has =>
      by_cases same : other = r
      · subst same
        obtain ⟨made, _, holder⟩ := (balanced other).of_held has
        exact .loose made (Function.update_self ..) (unheld_of_emptied holder)
      · refine (balanced other).congr rfl (Function.update_of_ne same ..) ?_
        exact holds_update (by rw [has]; exact some_ne same) (Option.some_ne_none _).symm
  | pass source target r has empty =>
      have apart : target ≠ source := by
        intro same
        rw [same, has] at empty
        cases empty
      have emptied : Function.update b.holds source none target = none := by
        rw [Function.update_of_ne apart, empty]
      by_cases same : other = r
      · subst same
        obtain ⟨made, notLoose, holder⟩ := (balanced other).of_held has
        refine .held target made notLoose fun holds => ?_
        change Function.update (Function.update b.holds source none) target (some other) holds =
          some other ↔ holds = target
        by_cases here : holds = target
        · simp [here]
        · rw [Function.update_of_ne here]
          exact iff_of_false (unheld_of_emptied holder holds) here
      · refine (balanced other).congr rfl rfl fun holds => ?_
        refine (holds_update ?_ (some_ne same) holds).trans ?_
        · rw [emptied]
          exact (Option.some_ne_none _).symm
        · exact holds_update (by rw [has]; exact some_ne same) (Option.some_ne_none _).symm holds
  | retire o r fails has =>
      by_cases same : other = r
      · subst same
        obtain ⟨made, notLoose, holder⟩ := (balanced other).of_held has
        refine .ended fails ?_ notLoose (unheld_of_emptied holder)
        rw [Books.about] at made ⊢
        rw [List.filter_append, made, filter_ending_self]
        rfl
      · refine (balanced other).congr ?_ rfl ?_
        · simp only [Books.about, List.filter_append, filter_ending_other _ _ same, List.append_nil]
        · exact holds_update (by rw [has]; exact some_ne same) (Option.some_ne_none _).symm

theorem balanced_of_moves (moves : Relation.ReflTransGen (Move closings) b b')
    (balanced : Balanced closings b) : Balanced closings b' := by
  induction moves with
  | refl => exact balanced
  | tail _ move ih => exact move.balanced ih

end Facts

end Ownership
