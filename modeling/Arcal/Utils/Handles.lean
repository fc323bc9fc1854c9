import Arcal.Lib.Ownership
import Arcal.Lib.Transition

/-! `ReaderPtr`, `WriterPtr`, `MessagePtr` and `ConnectionPtr`: a program that makes CAL
objects, puts them into such handles and moves them about. The program keeps to what the
classes ask of it: an object goes into a handle when no other has it, and a handle is used
between its construction and its destruction. -/

namespace Arcal.Utils

open Ownership Transition

inductive PtrClass
  | ReaderPtr
  | WriterPtr
  | MessagePtr
  | ConnectionPtr
  deriving DecidableEq, Repr

/-- The closing calls in front of the `delete`: `reset` closes a reader or a writer, and
`destroyReader` or `destroyWriter` closes it again; a connection is shut down once, a message is
only destroyed. -/
def PtrClass.closings : PtrClass → ℕ
  | .ReaderPtr | .WriterPtr => 2
  | .ConnectionPtr => 1
  | .MessagePtr => 0

variable {H R : Type}

/-- What `reset` leaves in the handle, what it did to the old object, and whether an exception
leaves it. The handle is emptied first, so a throw loses the old object and does not take the
new one. -/
structure ResetResult (R : Type) where
  held : Option R
  events : List (Event R)
  raised : Bool
  deriving DecidableEq, Repr

/-- `reset(next)`; `fails` tells which of the closing calls throws, if one does. -/
def PtrClass.reset (cls : PtrClass) (fails : Option ℕ) (held next : Option R) : ResetResult R :=
  match held with
  | none => ⟨next, [], false⟩
  | some old =>
      let raised := (fails.filter (· < cls.closings)).isSome
      ⟨if raised then none else next, ending cls.closings fails old, raised⟩

/-- The program: which handles exist and what they hold, the objects in its own hands, what
has happened, and whether the last operation ended in an exception. -/
structure Program (H R : Type) where
  handles : H → Option (Option R)
  loose : R → Bool
  log : List (Event R)
  raised : Bool

def Program.start : Program H R := ⟨fun _ => none, fun _ => false, [], false⟩

def Program.books (p : Program H R) : Books H R := ⟨fun h => (p.handles h).join, p.loose, p.log⟩

inductive Operation (H R : Type)
  /-- `MT::createReader`, `MT::createWriter`, `T::create` or the connection's entry point -/
  | create (r : R)
  | construct (h : H) (held : Option R)
  | moveConstruct (h source : H)
  | moveAssign (h source : H)
  | release (h : H)
  | reset (h : H) (next : Option R)
  | destruct (h : H)
  deriving DecidableEq, Repr

section Step

variable [DecidableEq H] [DecidableEq R]

def Program.set (p : Program H R) (h : H) (value : Option (Option R)) : H → Option (Option R) :=
  Function.update p.handles h value

def Program.taken (p : Program H R) : Option R → R → Bool
  | none => p.loose
  | some r => Function.update p.loose r false

def Program.given (p : Program H R) : Option R → R → Bool
  | none => p.loose
  | some r => Function.update p.loose r true

/-- An object may go into a handle of its class when no handle has it; a null pointer may. -/
def Program.mayTake (cls : H → PtrClass) (kind : R → PtrClass) (p : Program H R) (h : H) :
    Option R → Bool
  | none => true
  | some r => p.loose r && kind r = cls h

variable (cls : H → PtrClass) (kind : R → PtrClass)

def step (p : Program H R) : Operation H R × Option ℕ → Option (Program H R)
  | (.create r, _) =>
      if p.books.about r = [] then
        some { p with
          loose := Function.update p.loose r true
          log := p.log ++ [.made r]
          raised := false }
      else none
  | (.construct h held, _) =>
      match p.handles h with
      | some _ => none
      | none =>
          if p.mayTake cls kind h held then
            some { p with handles := p.set h (some held), loose := p.taken held, raised := false }
          else none
  | (.moveConstruct h source, _) =>
      match p.handles h, p.handles source with
      | none, some held =>
          if cls h = cls source then
            some { p with
              handles := Function.update (p.set source (some none)) h (some held)
              raised := false }
          else none
      | _, _ => none
  | (.moveAssign h source, fails) =>
      match p.handles h, p.handles source with
      | some held, some incoming =>
          if cls h = cls source then
            if h = source then some { p with raised := false }
            else
              let result := (cls h).reset fails held none
              if result.raised then
                some { p with
                  handles := p.set h (some result.held)
                  log := p.log ++ result.events
                  raised := true }
              else
                some { p with
                  handles := Function.update (p.set source (some none)) h (some incoming)
                  log := p.log ++ result.events
                  raised := false }
          else none
      | _, _ => none
  | (.release h, _) =>
      match p.handles h with
      | none => none
      | some held =>
          some { p with handles := p.set h (some none), loose := p.given held, raised := false }
  | (.reset h next, fails) =>
      match p.handles h with
      | none => none
      | some held =>
          if p.mayTake cls kind h next then
            let result := (cls h).reset fails held next
            some { p with
              handles := p.set h (some result.held)
              loose := if result.raised then p.loose else p.taken next
              log := p.log ++ result.events
              raised := result.raised }
          else none
  | (.destruct h, fails) =>
      match p.handles h with
      | none => none
      | some held =>
          let result := (cls h).reset fails held none
          some { p with
            handles := p.set h none
            log := p.log ++ result.events
            raised := false }

end Step

theorem PtrClass.reset_raised {cls : PtrClass} {fails : Option ℕ} {held next : Option R}
    (raised : (cls.reset fails held next).raised = true) :
    ∃ old, held = some old ∧
      cls.reset fails held next = ⟨none, ending cls.closings fails old, true⟩ := by
  cases held with
  | none => cases raised
  | some old =>
      simp only [PtrClass.reset] at raised ⊢
      exact ⟨old, rfl, by rw [raised]; rfl⟩

theorem PtrClass.reset_held {cls : PtrClass} {fails : Option ℕ} {held next : Option R}
    (quiet : (cls.reset fails held next).raised = false) :
    (cls.reset fails held next).held = next := by
  cases held with
  | none => rfl
  | some old =>
      simp only [PtrClass.reset] at quiet ⊢
      rw [quiet]
      rfl

variable {cls : H → PtrClass} {kind : R → PtrClass}

variable (cls kind) in
def Classed (handles : H → Option (Option R)) : Prop :=
  ∀ h r, handles h = some (some r) → kind r = cls h

theorem Program.holds_iff {p : Program H R} {h : H} {r : R} :
    p.books.holds h = some r ↔ p.handles h = some (some r) := by
  simp [Program.books, Option.join_eq_some_iff]

theorem Program.holds_of {p : Program H R} {h : H} {held : Option R}
    (has : p.handles h = some held) : p.books.holds h = held := by
  change (p.handles h).join = held
  rw [has]
  rfl

theorem Program.holds_of_absent {p : Program H R} {h : H} (absent : p.handles h = none) :
    p.books.holds h = none := by
  change (p.handles h).join = none
  rw [absent]
  rfl

theorem mayTake_some {p : Program H R} {h : H} {r : R}
    (may : p.mayTake cls kind h (some r) = true) : p.loose r = true ∧ kind r = cls h := by
  simpa [Program.mayTake] using may

section Moves

variable [DecidableEq H]

theorem join_update (handles : H → Option (Option R)) (h : H) (value : Option (Option R)) :
    (fun k => (Function.update handles h value k).join) =
      Function.update (fun k => (handles k).join) h value.join :=
  Function.comp_update Option.join handles h value

theorem update_unchanged {V : Type} {holds : H → V} {h : H} {value : V} (has : holds h = value) :
    Function.update holds h value = holds := by
  rw [← has, Function.update_eq_self]

variable [DecidableEq R]

abbrev Moves (kind : R → PtrClass) : Books H R → Books H R → Prop :=
  Relation.ReflTransGen (Move fun r => (kind r).closings)

theorem reset_moves {b : Books H R} {h : H} {held : Option R} (has : b.holds h = held)
    (classed : ∀ r, held = some r → kind r = cls h) (fails : Option ℕ) (next : Option R) :
    Moves kind b
      { b with
        holds := Function.update b.holds h none
        log := b.log ++ ((cls h).reset fails held next).events } := by
  cases held with
  | none =>
      rw [update_unchanged has, PtrClass.reset, List.append_nil]
  | some old =>
      rw [PtrClass.reset, ← classed old rfl]
      exact .single (.retire h old fails has)

theorem take_moves {p : Program H R} {b : Books H R} {h : H} {next : Option R}
    (loose : b.loose = p.loose) (empty : b.holds h = none)
    (may : p.mayTake cls kind h next = true) :
    Moves kind b { b with holds := Function.update b.holds h next, loose := p.taken next } := by
  cases next with
  | none =>
      rw [update_unchanged empty, Program.taken, ← loose]
  | some r =>
      rw [Program.taken, ← loose]
      refine .single (.take h r ?_ empty)
      rw [loose]
      exact (mayTake_some may).1

theorem pass_moves {b : Books H R} {source target : H} {held : Option R}
    (has : b.holds source = held) (empty : b.holds target = none) :
    Moves kind b
      { b with
        holds := Function.update (Function.update b.holds source none) target held } := by
  cases held with
  | none =>
      rw [update_unchanged has, update_unchanged empty]
  | some r => exact .single (.pass source target r has empty)

omit [DecidableEq R] in
theorem Classed.update {handles : H → Option (Option R)} (classed : Classed cls kind handles)
    {h : H} {value : Option (Option R)} (fits : ∀ r, value = some (some r) → kind r = cls h) :
    Classed cls kind (Function.update handles h value) := by
  intro k r has
  by_cases here : k = h
  · rw [here, Function.update_self] at has
    rw [here]
    exact fits r has
  · rw [Function.update_of_ne here] at has
    exact classed k r has

omit [DecidableEq R] in
theorem Classed.empty {handles : H → Option (Option R)} (classed : Classed cls kind handles)
    (h : H) : Classed cls kind (Function.update handles h (some none)) := by
  refine classed.update ?_
  intro r has
  cases has

theorem step_moves {p next : Program H R} {label : Operation H R × Option ℕ}
    (classed : Classed cls kind p.handles) (stepped : step cls kind p label = some next) :
    Moves kind p.books next.books ∧ Classed cls kind next.handles := by
  rcases label with ⟨operation, fails⟩
  have ofClass : ∀ h held, p.handles h = some held → ∀ r, held = some r → kind r = cls h := by
    intro h held has r same
    exact classed h r (by rw [has, same])
  have mayFit : ∀ h held, p.mayTake cls kind h held = true →
      ∀ r, some held = some (some r) → kind r = cls h := by
    intro h held may r same
    injection same with same
    rw [same] at may
    exact (mayTake_some may).2
  have passFits : ∀ h source held, cls h = cls source → p.handles source = some held →
      ∀ r, some held = some (some r) → kind r = cls h := by
    intro h source held sameClass has r same
    injection same with same
    rw [sameClass]
    exact ofClass source held has r same
  cases operation with
  | create r =>
      simp only [step] at stepped
      split at stepped
      case isTrue new =>
        injection stepped with same
        rw [← same]
        exact ⟨.single (.make r new), classed⟩
      case isFalse => cases stepped
  | construct h held =>
      simp only [step] at stepped
      split at stepped
      case h_1 => cases stepped
      case h_2 absent =>
        split at stepped
        case isTrue may =>
          injection stepped with same
          have moves := take_moves (b := p.books) rfl (Program.holds_of_absent absent) may
          rw [← same]
          constructor
          · simpa only [Program.books, Program.set, join_update, Option.join_some] using moves
          · exact classed.update (mayFit h held may)
        case isFalse => cases stepped
  | moveConstruct h source =>
      simp only [step] at stepped
      split at stepped
      case h_1 absent has =>
        split at stepped
        case isTrue sameClass =>
          injection stepped with same
          have moves : Moves kind _ _ := pass_moves (Program.holds_of has)
            (Program.holds_of_absent absent)
          rw [← same]
          constructor
          · simpa only [Program.books, Program.set, join_update, Option.join_some] using moves
          · exact (classed.empty source).update (passFits h source _ sameClass has)
        case isFalse => cases stepped
      case h_2 => cases stepped
  | moveAssign h source =>
      simp only [step] at stepped
      split at stepped
      case h_1 held incoming has hasSource =>
        split at stepped
        case isTrue sameClass =>
          have emptied := reset_moves (Program.holds_of has) (ofClass h held has) fails none
          split at stepped
          case isTrue =>
            injection stepped with same
            rw [← same]
            exact ⟨.refl, classed⟩
          case isFalse apart =>
            split at stepped
            case isTrue raised =>
              injection stepped with same
              have left : ((cls h).reset fails held none).held = none := by
                obtain ⟨old, _, result⟩ := PtrClass.reset_raised raised
                rw [result]
              rw [← same, left]
              constructor
              · simpa only [Program.books, Program.set, join_update, Option.join_some] using emptied
              · exact classed.empty h
            case isFalse =>
              injection stepped with same
              have still : Function.update p.books.holds h none source = incoming := by
                rw [Function.update_of_ne (Ne.symm apart)]
                exact Program.holds_of hasSource
              have passed := emptied.trans (pass_moves still (Function.update_self ..))
              rw [← same]
              constructor
              · simpa only [Program.books, Program.set, join_update, Option.join_some,
                  Function.update_comm apart, Function.update_idem] using passed
              · exact (classed.empty source).update (passFits h source _ sameClass hasSource)
        case isFalse => cases stepped
      case h_2 => cases stepped
  | release h =>
      simp only [step] at stepped
      split at stepped
      case h_1 => cases stepped
      case h_2 held has =>
        injection stepped with same
        rw [← same]
        refine ⟨?_, classed.empty h⟩
        cases held with
        | none =>
            rw [Program.set, update_unchanged has]
            exact .refl
        | some r =>
            have move : Move (fun r => (kind r).closings) _ _ := .drop h r (Program.holds_of has)
            refine .single ?_
            simpa only [Program.books, Program.set, Program.given, join_update, Option.join_some]
              using move
  | reset h incoming =>
      simp only [step] at stepped
      split at stepped
      case h_1 => cases stepped
      case h_2 held has =>
        have emptied := reset_moves (Program.holds_of has) (ofClass h held has) fails incoming
        split at stepped
        case isTrue may =>
          injection stepped with same
          rw [← same]
          cases raised : ((cls h).reset fails held incoming).raised with
          | true =>
              obtain ⟨old, _, result⟩ := PtrClass.reset_raised raised
              rw [result] at emptied ⊢
              constructor
              · simpa only [Program.books, Program.set, join_update, Option.join_some, if_true]
                  using emptied
              · exact classed.empty h
          | false =>
              have taken := emptied.trans (take_moves rfl (Function.update_self ..) may)
              rw [PtrClass.reset_held raised]
              constructor
              · simpa only [Program.books, Program.set, join_update, Option.join_some,
                  Function.update_idem, Bool.false_eq_true, if_false] using taken
              · exact classed.update (mayFit h incoming may)
        case isFalse => cases stepped
  | destruct h =>
      simp only [step] at stepped
      split at stepped
      case h_1 => cases stepped
      case h_2 held has =>
        injection stepped with same
        have emptied := reset_moves (Program.holds_of has) (ofClass h held has) fails none
        rw [← same]
        constructor
        · simpa only [Program.books, Program.set, join_update, Option.join_none] using emptied
        · refine classed.update ?_
          intro r absent
          cases absent

theorem run_moves {p last : Program H R} {labels : List (Operation H R × Option ℕ)}
    (classed : Classed cls kind p.handles) (ran : run (step cls kind) p labels = some last) :
    Moves kind p.books last.books := by
  induction labels generalizing p with
  | nil =>
      injection ran with same
      rw [same]
  | cons label rest ih =>
      obtain ⟨next, stepped, more⟩ := run_cons_eq_some.mp ran
      obtain ⟨moves, stays⟩ := step_moves classed stepped
      exact moves.trans (ih stays more)

omit [DecidableEq H] in
theorem start_balanced (closings : R → ℕ) : Balanced closings (Program.start : Program H R).books :=
  fun _ => .unknown rfl rfl fun _ => (Option.some_ne_none _).symm

/-- Wherever a run has moved it, an object that was made is with the program, in one handle, or
given up: closed as often as its class asks and then destroyed, or left alone after a closing call
that threw; and it is given up if it is with nobody. -/
theorem objects_accounted {labels : List (Operation H R × Option ℕ)} {p : Program H R}
    (ran : run (step cls kind) Program.start labels = some p) (r : R) :
    Accounted (fun r => (kind r).closings) p.books r ∧
      (.made r ∈ p.log → p.loose r = false → (∀ h, p.handles h ≠ some (some r)) →
        ∃ fails, p.books.about r = .made r :: ending (kind r).closings fails r) := by
  have classed : Classed cls kind (Program.start : Program H R).handles := by
    intro h r has
    cases has
  have balanced := balanced_of_moves (run_moves classed ran) (start_balanced _)
  refine ⟨balanced r, ?_⟩
  intro made notLoose absent
  cases balanced r with
  | unknown about _ _ =>
      have inside : .made r ∈ p.books.about r := List.mem_filter.mpr ⟨made, by simp [Event.resource]⟩
      rw [about] at inside
      cases inside
  | loose _ isLoose _ =>
      rw [show p.loose r = true from isLoose] at notLoose
      cases notLoose
  | held h _ _ holder => exact absurd (Program.holds_iff.mp ((holder h).mpr rfl)) (absent h)
  | ended fails about _ _ => exact ⟨fails, about⟩

/-- A reader that is moved to another handle, where its second closing call throws: it is in no
hand, and was closed once and never destroyed. -/
theorem objects_accounted_reader : ∃ p : Program Nat Nat,
    run (step (fun _ => .ReaderPtr) fun _ => .ReaderPtr) Program.start
        [(.create 7, none), (.construct 0 (some 7), none), (.construct 1 none, none),
          (.moveAssign 1 0, none), (.destruct 0, none), (.destruct 1, some 1)] = some p ∧
      p.books.about 7 = [.made 7, .closed 7, .closeThrew 7] ∧
      ∃ fails, p.books.about 7 = .made 7 :: ending 2 fails 7 := by
  obtain ⟨p, ran, made, notLoose, absent, about⟩ : ∃ p : Program Nat Nat,
      run (step (fun _ => .ReaderPtr) fun _ => .ReaderPtr) Program.start
          [(.create 7, none), (.construct 0 (some 7), none), (.construct 1 none, none),
            (.moveAssign 1 0, none), (.destruct 0, none), (.destruct 1, some 1)] = some p ∧
        .made 7 ∈ p.log ∧ p.loose 7 = false ∧ (∀ h, p.handles h ≠ some (some 7)) ∧
        p.books.about 7 = [.made 7, .closed 7, .closeThrew 7] := by
    refine ⟨_, rfl, by decide, rfl, ?_, by decide⟩
    intro h
    by_cases one : h = 1
    · simp [one, Program.set]
    · by_cases zero : h = 0
      · simp [zero, Program.set]
      · simp [one, zero, Program.set, Program.start]
  exact ⟨p, ran, about, (objects_accounted ran 7).2 made notLoose absent⟩

/-- An exception leaves an operation only for a closing call of the handle's old object,
which is lost; whatever was to replace it stays where it was. -/
theorem raised_lost {p next : Program H R} {label : Operation H R × Option ℕ}
    (stepped : step cls kind p label = some next) (raised : next.raised = true) :
    ∃ h old, p.handles h = some (some old) ∧
      next = ⟨Function.update p.handles h (some none), p.loose,
        p.log ++ ending (cls h).closings label.2 old, true⟩ := by
  rcases label with ⟨operation, fails⟩
  cases operation with
  | create r =>
      simp only [step] at stepped
      split at stepped <;> cases stepped
      cases raised
  | construct h held =>
      simp only [step] at stepped
      split at stepped
      case h_1 => cases stepped
      case h_2 =>
        split at stepped <;> cases stepped
        cases raised
  | moveConstruct h source =>
      simp only [step] at stepped
      split at stepped
      case h_1 =>
        split at stepped <;> cases stepped
        cases raised
      case h_2 => cases stepped
  | moveAssign h source =>
      simp only [step] at stepped
      split at stepped
      case h_1 held incoming has _ =>
        split at stepped
        case isTrue =>
          split at stepped
          case isTrue =>
            cases stepped
            cases raised
          case isFalse =>
            split at stepped
            case isTrue closing =>
              obtain ⟨old, same, result⟩ := PtrClass.reset_raised closing
              rw [result] at stepped
              injection stepped with last
              exact ⟨h, old, by rw [has, same], last.symm⟩
            case isFalse =>
              cases stepped
              cases raised
        case isFalse => cases stepped
      case h_2 => cases stepped
  | release h =>
      simp only [step] at stepped
      split at stepped <;> cases stepped
      cases raised
  | reset h incoming =>
      simp only [step] at stepped
      split at stepped
      case h_1 => cases stepped
      case h_2 held has =>
        split at stepped
        case isTrue =>
          injection stepped with last
          have closing : ((cls h).reset fails held incoming).raised = true := by
            rw [← last] at raised
            exact raised
          obtain ⟨old, same, result⟩ := PtrClass.reset_raised closing
          rw [result] at last
          exact ⟨h, old, by rw [has, same], last.symm⟩
        case isFalse => cases stepped
  | destruct h =>
      simp only [step] at stepped
      split at stepped <;> cases stepped
      cases raised

end Moves

end Arcal.Utils
