import Arcal.Accessor.Impl
import Arcal.Lib.Simulation
import Arcal.Lib.Transition

/-! `BoundedListImpl` as it stores its elements: a vector, and a bound that each operation has to
look after for itself. Memory is never exhausted. -/

namespace Arcal.Schema

open Focus (attempt attempt_bind_cases)
open InPlace (bind_ok)
open Simulation (left)
open Transition (run)

structure BoundedListImpl (StorageT : Type) where
  maxOccurs : Nat
  data : List StorageT

/-- What an operation throws: an exception of its own or of the conversion of an element, or
the `std::length_error` of the vector. -/
inductive ListExc
  | thrown (e : Exc)
  | lengthError
  deriving DecidableEq, Repr

def raised {σ α : Type} (m : EStateM Exc σ α) : EStateM ListExc σ α := fun s =>
  match m s with
  | .ok a s' => .ok a s'
  | .error e s' => .error (.thrown e) s'

namespace BoundedListImpl

variable {ε T StorageT : Type}

def init (maxOccurs : Nat) : BoundedListImpl StorageT := ⟨maxOccurs, []⟩

def size (list : BoundedListImpl StorageT) : Nat := list.data.length

def checkRoom (list : BoundedListImpl StorageT) : Except Exc Unit :=
  if list.size ≥ list.maxOccurs then
    .error (.uciException
      (utf8 "BoundedList::push_back exceeds maxOccurs=" ++ decimal list.maxOccurs))
  else .ok ()

/-- The overloads of `push_back`: the room is checked before the element is made. -/
def pushMade (item : Except Exc StorageT) : EStateM Exc (BoundedListImpl StorageT) Unit := do
  let list ← get
  attempt list.checkRoom
  let made ← attempt item
  modify fun list => { list with data := list.data ++ [made] }

/-- `push_back(const T&)`; `copy` is `item.copy(v)`, or nothing at all where `StorageT` is `T`. -/
def pushBack (copy : T → Except Exc StorageT) (v : T) :
    EStateM Exc (BoundedListImpl StorageT) Unit :=
  pushMade (copy v)

/-- `push_back(U&&)`, with the result of `item = std::move(v)`. -/
def pushBackMoved (item : Except Exc StorageT) : EStateM Exc (BoundedListImpl StorageT) Unit :=
  pushMade item

/-- `push_back(const U&)`, with the result of `item = v`. -/
def pushBackAssigned (item : Except Exc StorageT) : EStateM Exc (BoundedListImpl StorageT) Unit :=
  pushMade item

/-- The two templates of the base class `BoundedList`: the element is made first. -/
def basePushBack (copy : T → Except Exc StorageT) (item : Except Exc T) :
    EStateM Exc (BoundedListImpl StorageT) Unit := do
  let v ← attempt item
  pushBack copy v

def checkLength (maxSize n : Nat) : Except ListExc Unit :=
  if n > maxSize then .error .lengthError else .ok ()

def resizeData (maxSize : Nat) (new : StorageT) (n : Nat) :
    EStateM ListExc (BoundedListImpl StorageT) Unit := do
  attempt (checkLength maxSize n)
  modify fun list =>
    { list with data := list.data.take n ++ List.replicate (n - list.data.length) new }

def checkResize (list : BoundedListImpl StorageT) (n : Nat) : Except ListExc Unit :=
  if n > list.maxOccurs then
    .error (.thrown (.uciException
      (utf8 "BoundedList::resize exceeds maxOccurs=" ++ decimal list.maxOccurs)))
  else .ok ()

def resize (maxSize : Nat) (new : StorageT) (n : Nat) :
    EStateM ListExc (BoundedListImpl StorageT) Unit := do
  let list ← get
  attempt (list.checkResize n)
  resizeData maxSize new n

/-- `std::vector::reserve` on the elements; there is no other check. -/
def reserve (maxSize n : Nat) : EStateM ListExc (BoundedListImpl StorageT) Unit :=
  attempt (checkLength maxSize n)

def popBack : EStateM Exc (BoundedListImpl StorageT) Unit :=
  modify fun list => { list with data := list.data.dropLast }

def clear : EStateM Exc (BoundedListImpl StorageT) Unit :=
  modify fun list => { list with data := [] }

def reset : EStateM Exc (BoundedListImpl StorageT) Unit :=
  modify fun list => { list with data := [] }

def Sound (program : EStateM ε (BoundedListImpl StorageT) Unit) : Prop :=
  ∀ list : BoundedListImpl StorageT, list.size ≤ list.maxOccurs →
    (∃ e, program list = .error e list) ∨
      ∃ data : List StorageT, program list = .ok () { list with data } ∧
        data.length ≤ list.maxOccurs

theorem pushMade_run {list : BoundedListImpl StorageT}
    (room : list.data.length < list.maxOccurs) (made : StorageT) :
    pushMade (.ok made) list = .ok () { list with data := list.data ++ [made] } := by
  have fits : list.checkRoom = .ok () := if_neg (Nat.not_le.mpr room)
  have here : (get : EStateM Exc _ _) list = .ok list list := rfl
  rw [pushMade, bind_ok here, bind_ok (Focus.attempt_ok fits list)]
  rfl

theorem pushMade_full {list : BoundedListImpl StorageT}
    (full : list.maxOccurs ≤ list.data.length) (item : Except Exc StorageT) :
    pushMade item list = .error (.uciException
      (utf8 "BoundedList::push_back exceeds maxOccurs=" ++ decimal list.maxOccurs)) list := by
  have stops : list.checkRoom = .error _ := if_pos full
  have here : (get : EStateM Exc _ _) list = .ok list list := rfl
  rw [pushMade, bind_ok here, stops]
  rfl

theorem pushMade_sound (item : Except Exc StorageT) : Sound (pushMade item) := by
  intro list _
  have here : (get : EStateM Exc _ _) list = .ok list list := rfl
  rw [pushMade, bind_ok here]
  rcases attempt_bind_cases list.checkRoom _ list with ⟨e, _, stops⟩ | ⟨_, fits, goes⟩
  · exact .inl ⟨e, stops⟩
  · rw [goes]
    rcases attempt_bind_cases item _ list with ⟨e, _, stops⟩ | ⟨made, _, goes⟩
    · exact .inl ⟨e, stops⟩
    · rw [goes]
      refine .inr ⟨list.data ++ [made], rfl, ?_⟩
      have room : ¬ list.size ≥ list.maxOccurs := by
        intro full
        rw [checkRoom, if_pos full] at fits
        cases fits
      rw [List.length_append, List.length_singleton]
      exact Nat.not_le.mp room

theorem basePushBack_sound (copy : T → Except Exc StorageT) (item : Except Exc T) :
    Sound (basePushBack copy item) := by
  intro list bounded
  rcases attempt_bind_cases item _ list with ⟨e, _, stops⟩ | ⟨v, _, goes⟩
  · exact .inl ⟨e, stops⟩
  · rw [basePushBack, goes]
    exact pushMade_sound (copy v) list bounded

theorem resize_sound (maxSize : Nat) (new : StorageT) (n : Nat) :
    Sound (resize maxSize new n) := by
  intro list _
  have here : (get : EStateM ListExc _ _) list = .ok list list := rfl
  rw [resize, bind_ok here]
  rcases attempt_bind_cases (list.checkResize n) _ list with ⟨e, _, stops⟩ | ⟨_, fits, goes⟩
  · exact .inl ⟨e, stops⟩
  · rw [goes, resizeData]
    rcases attempt_bind_cases (checkLength maxSize n) _ list with ⟨e, _, stops⟩ | ⟨_, _, goes⟩
    · exact .inl ⟨e, stops⟩
    · rw [goes]
      refine .inr ⟨_, rfl, ?_⟩
      have within : ¬ n > list.maxOccurs := by
        intro beyond
        rw [checkResize, if_pos beyond] at fits
        cases fits
      rw [List.length_append, List.length_take, List.length_replicate]
      omega

theorem reserve_sound (maxSize n : Nat) :
    Sound (reserve maxSize n : EStateM ListExc (BoundedListImpl StorageT) Unit) := by
  intro list bounded
  rw [reserve]
  cases checkLength maxSize n with
  | ok u => exact .inr ⟨list.data, rfl, bounded⟩
  | error e => exact .inl ⟨e, rfl⟩

theorem popBack_sound : Sound (popBack : EStateM Exc (BoundedListImpl StorageT) Unit) := by
  intro list bounded
  refine .inr ⟨list.data.dropLast, rfl, ?_⟩
  rw [List.length_dropLast]
  exact Nat.le_trans (Nat.sub_le _ _) bounded

theorem clear_sound : Sound (clear : EStateM Exc (BoundedListImpl StorageT) Unit) := by
  intro list _
  exact .inr ⟨[], rfl, Nat.zero_le _⟩

theorem reset_sound : Sound (reset : EStateM Exc (BoundedListImpl StorageT) Unit) := by
  intro list _
  exact .inr ⟨[], rfl, Nat.zero_le _⟩

theorem Sound.raised {program : EStateM Exc (BoundedListImpl StorageT) Unit}
    (sound : Sound program) : Sound (raised program) := by
  intro list bounded
  rcases sound list bounded with ⟨e, stops⟩ | ⟨data, goes, short⟩
  · exact .inl ⟨.thrown e, by rw [Schema.raised, stops]⟩
  · exact .inr ⟨data, by rw [Schema.raised, goes], short⟩

end BoundedListImpl

inductive Operation (T StorageT : Type)
  | pushBack (v : T)
  | pushBackMoved (item : Except Exc StorageT)
  | pushBackAssigned (item : Except Exc StorageT)
  | basePushBack (item : Except Exc T)
  | resize (n : Nat)
  | reserve (n : Nat)
  | popBack
  | clear
  | reset

/-- An operation of one list among many, or `lists[dst] = lists[src]`. -/
inductive Call (ι T StorageT : Type)
  | on (target : ι) (operation : Operation T StorageT)
  | assign (dst src : ι)

section Programs

variable {ι T StorageT : Type} [DecidableEq ι] (copy : T → Except Exc StorageT) (new : StorageT)
  (maxSize : Nat)

def Operation.perform (operation : Operation T StorageT) :
    EStateM ListExc (BoundedListImpl StorageT) Unit :=
  match operation with
  | .pushBack v => raised (BoundedListImpl.pushBack copy v)
  | .pushBackMoved item => raised (BoundedListImpl.pushBackMoved item)
  | .pushBackAssigned item => raised (BoundedListImpl.pushBackAssigned item)
  | .basePushBack item => raised (BoundedListImpl.basePushBack copy item)
  | .resize n => BoundedListImpl.resize maxSize new n
  | .reserve n => BoundedListImpl.reserve maxSize n
  | .popBack => raised BoundedListImpl.popBack
  | .clear => raised BoundedListImpl.clear
  | .reset => raised BoundedListImpl.reset

def Call.perform (call : Call ι T StorageT) :
    EStateM ListExc (ι → BoundedListImpl StorageT) Unit :=
  match call with
  | .on target operation =>
      Focus.within (fun lists => lists target) (fun lists list => Function.update lists target list)
        (operation.perform copy new maxSize)
  | .assign dst src => modify fun lists => Function.update lists dst (lists src)

/-- `pop_back` on an empty list is undefined. -/
def Call.defined (call : Call ι T StorageT) (lists : ι → BoundedListImpl StorageT) : Bool :=
  match call with
  | .on target .popBack => !(lists target).data.isEmpty
  | _ => true

def callStep (lists : ι → BoundedListImpl StorageT) (call : Call ι T StorageT) :
    Option (ι → BoundedListImpl StorageT) :=
  if call.defined lists then some (left (call.perform copy new maxSize lists)) else none

def AllBounded (maxOccurs : Nat) (lists : ι → BoundedListImpl StorageT) : Prop :=
  ∀ i, (lists i).maxOccurs = maxOccurs ∧ (lists i).size ≤ maxOccurs

variable {copy new maxSize} {maxOccurs : Nat}

theorem Operation.perform_sound (operation : Operation T StorageT) :
    BoundedListImpl.Sound (operation.perform copy new maxSize) := by
  cases operation with
  | pushBack v => exact (BoundedListImpl.pushMade_sound (copy v)).raised
  | pushBackMoved item => exact (BoundedListImpl.pushMade_sound item).raised
  | pushBackAssigned item => exact (BoundedListImpl.pushMade_sound item).raised
  | basePushBack item => exact (BoundedListImpl.basePushBack_sound copy item).raised
  | resize n => exact BoundedListImpl.resize_sound maxSize new n
  | reserve n => exact BoundedListImpl.reserve_sound maxSize n
  | popBack => exact BoundedListImpl.popBack_sound.raised
  | clear => exact BoundedListImpl.clear_sound.raised
  | reset => exact BoundedListImpl.reset_sound.raised

theorem AllBounded.update {lists : ι → BoundedListImpl StorageT}
    (bounded : AllBounded maxOccurs lists) (target : ι) {list : BoundedListImpl StorageT}
    (bound : list.maxOccurs = maxOccurs ∧ list.size ≤ maxOccurs) :
    AllBounded maxOccurs (Function.update lists target list) := by
  intro i
  by_cases here : i = target
  · rw [here, Function.update_self]
    exact bound
  · rw [Function.update_of_ne here]
    exact bounded i

theorem Call.perform_cases (call : Call ι T StorageT) {lists : ι → BoundedListImpl StorageT}
    (bounded : AllBounded maxOccurs lists) :
    (∃ e, call.perform copy new maxSize lists = .error e lists) ∨
      ∃ after, call.perform copy new maxSize lists = .ok () after ∧ AllBounded maxOccurs after := by
  cases call with
  | assign dst src => exact .inr ⟨_, rfl, bounded.update dst (bounded src)⟩
  | on target operation =>
      have bound := bounded target
      have fits : (lists target).size ≤ (lists target).maxOccurs := by
        rw [bound.1]
        exact bound.2
      have sound : BoundedListImpl.Sound (operation.perform copy new maxSize) :=
        operation.perform_sound
      rcases sound (lists target) fits with ⟨e, stops⟩ | ⟨data, goes, short⟩
      · refine .inl ⟨e, ?_⟩
        simp only [Call.perform, Focus.within, stops, Function.update_eq_self]
      · refine .inr ⟨Function.update lists target { lists target with data }, ?_, ?_⟩
        · simp only [Call.perform, Focus.within, goes]
        · exact bounded.update target ⟨bound.1, bound.1 ▸ short⟩

theorem callStep_keeps {lists after : ι → BoundedListImpl StorageT} {call : Call ι T StorageT}
    (bounded : AllBounded maxOccurs lists)
    (taken : callStep copy new maxSize lists call = some after) :
    AllBounded maxOccurs after := by
  unfold callStep at taken
  split_ifs at taken
  rw [← Option.some.inj taken]
  rcases call.perform_cases bounded with ⟨e, stops⟩ | ⟨last, goes, still⟩
  · rw [stops]
    exact bounded
  · rw [goes]
    exact still

theorem run_bounded {calls : List (Call ι T StorageT)} {lists : ι → BoundedListImpl StorageT}
    (whole : run (callStep copy new maxSize) (fun _ => BoundedListImpl.init maxOccurs) calls =
      some lists) : AllBounded maxOccurs lists :=
  Transition.run_invariant (fun _ _ _ bounded taken => callStep_keeps bounded taken)
    (fun _ => ⟨rfl, Nat.zero_le _⟩) whole

end Programs

end Arcal.Schema
