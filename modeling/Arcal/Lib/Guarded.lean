import Arcal.Lib.InPlace
import Mathlib.Algebra.Group.Nat.Defs
import Mathlib.Data.List.GetD

/-! Decoders on a machine: a 64-bit offset that wraps, and a record of every offset and of
every byte that is read. `Refines` says in one what such a decoder does: it gives what a
decoder with an unbounded offset gives, reads inside the memory only and never goes back. -/

namespace Guarded

open InPlace

/-- Where a decoder stands: its offset, the offsets before, the latest first, and the places
it has read. -/
structure Spot where
  off : UInt64
  past : List UInt64
  reads : List UInt64
  deriving DecidableEq

def Spot.trail (s : Spot) : List UInt64 := s.off :: s.past

/-- Nothing was read outside the memory, and the offset never went back. -/
structure Spot.Sound (size : Nat) (s : Spot) : Prop where
  inside : ∀ index ∈ s.reads, index.toNat < size
  forward : s.trail.Pairwise fun later earlier => earlier.toNat ≤ later.toNat

def Spot.moved (s : Spot) (off : UInt64) : Spot := ⟨off, s.trail, s.reads⟩

def Spot.read (s : Spot) (index : UInt64) : Spot := { s with reads := index :: s.reads }

structure Place (σ : Type) where
  spot : Spot
  obj : σ

def Place.cursor {σ : Type} (p : Place σ) : Cursor σ := ⟨p.spot.off.toNat, p.obj⟩

abbrev Decode (ε σ α : Type) := EStateM ε (Place σ) α

section Steps

variable {ε σ τ α : Type}

def moveTo (off : UInt64 → UInt64) : EStateM ε Spot Unit := fun s => .ok () (s.moved (off s.off))

def peek (memory : List UInt8) (k : UInt64) : EStateM ε Spot UInt8 := fun s =>
  .ok (memory.getD (s.off + k).toNat 0) (s.read (s.off + k))

def readFrom (memory : List UInt8) : Nat → UInt64 → EStateM ε Spot (List UInt8)
  | 0, _ => pure []
  | count + 1, index => fun s =>
      match readFrom memory count (index + 1) (s.read index) with
      | .ok rest s' => .ok (memory.getD index.toNat 0 :: rest) s'
      | .error e s' => .error e s'

def peekMany (memory : List UInt8) (count : Nat) : EStateM ε Spot (List UInt8) := fun s =>
  readFrom memory count s.off s

def position (m : EStateM ε Spot α) : Decode ε σ α := fun p =>
  match m p.spot with
  | .ok a spot => .ok a { p with spot }
  | .error e spot => .error e { p with spot }

def assign (v : σ) : Decode ε σ Unit := fun p => .ok () { p with obj := v }

def update (f : σ → σ) : Decode ε σ Unit := fun p => .ok () { p with obj := f p.obj }

def onPart (get : σ → τ) (put : σ → τ → σ) (m : Decode ε τ α) : Decode ε σ α := fun p =>
  match m ⟨p.spot, get p.obj⟩ with
  | .ok a q => .ok a ⟨q.spot, put p.obj q.obj⟩
  | .error e q => .error e ⟨q.spot, put p.obj q.obj⟩

def onFst (m : Decode ε σ α) : Decode ε (σ × τ) α :=
  onPart Prod.fst (fun pair first => (first, pair.2)) m

def onSnd (m : Decode ε τ α) : Decode ε (σ × τ) α :=
  onPart Prod.snd (fun pair second => (pair.1, second)) m

def markAnd (first : Bool) (mark : σ → σ) (fill : Decode ε σ Unit) : Decode ε σ Unit :=
  if first then do
    update mark
    fill
  else do
    fill
    update mark

def onNew (init : τ) (m : Decode ε τ Unit) : Decode ε σ τ := fun p =>
  match m ⟨p.spot, init⟩ with
  | .ok _ q => .ok q.obj { p with spot := q.spot }
  | .error e q => .error e { p with spot := q.spot }

def modifyOrThrow (f : σ → Except ε σ) : Decode ε σ Unit := fun p =>
  match f p.obj with
  | .ok v => .ok () { p with obj := v }
  | .error e => .error e p

end Steps

section Refinement

variable {ε σ τ α β : Type}

/-- What a run may do to the spot: it stays sound and keeps its trail. -/
structure Goes (size : Nat) (s s' : Spot) : Prop where
  sound : s'.Sound size
  trail : s.trail <:+ s'.trail

theorem Goes.refl {size : Nat} {s : Spot} (sound : s.Sound size) : Goes size s s :=
  ⟨sound, List.suffix_refl _⟩

theorem Goes.trans {size : Nat} {s mid s' : Spot} (first : Goes size s mid)
    (second : Goes size mid s') : Goes size s s' :=
  ⟨second.sound, first.trail.trans second.trail⟩

/-- From a spot that meets `pre`, `m` gives what `m'` gives and goes soundly; where it
returns, the offset meets `post`. -/
def Refines (size : Nat) (spot : σ → Spot) (erase : σ → τ) (pre post : Nat → Prop)
    (m : EStateM ε σ α) (m' : EStateM ε τ α) : Prop :=
  ∀ s, (spot s).Sound size → pre (spot s).off.toNat →
    match m s with
    | .ok a s' => m' (erase s) = .ok a (erase s') ∧ Goes size (spot s) (spot s') ∧
        post (spot s').off.toNat
    | .error e s' => m' (erase s) = .error e (erase s') ∧ Goes size (spot s) (spot s')

variable {size : Nat} {spot : σ → Spot} {erase : σ → τ} {pre mid post : Nat → Prop}

theorem Refines.pure (a : α) : Refines size spot erase pre pre (pure a : EStateM ε σ α) (pure a) :=
  fun _ sound given => ⟨rfl, Goes.refl sound, given⟩

theorem Refines.throw (e : ε) :
    Refines size spot erase pre post (fun s => .error e s : EStateM ε σ α) fun s => .error e s :=
  fun _ sound _ => ⟨rfl, Goes.refl sound⟩

theorem Refines.bind {m : EStateM ε σ α} {m' : EStateM ε τ α} {f : α → EStateM ε σ β}
    {f' : α → EStateM ε τ β} (first : Refines size spot erase pre mid m m')
    (next : ∀ a, Refines size spot erase mid post (f a) (f' a)) :
    Refines size spot erase pre post (m >>= f) (m' >>= f') := by
  intro s sound given
  have head := first s sound given
  cases run : m s with
  | error e s' =>
      simp only [run] at head
      rw [bind_error run, bind_error head.1]
      exact ⟨rfl, head.2⟩
  | ok a s' =>
      simp only [run] at head
      have tail := next a s' head.2.1.sound head.2.2
      rw [bind_ok run, bind_ok head.1]
      cases more : f a s' with
      | ok b s'' =>
          simp only [more] at tail
          exact ⟨tail.1, head.2.1.trans tail.2.1, tail.2.2⟩
      | error e s'' =>
          simp only [more] at tail
          exact ⟨tail.1, head.2.1.trans tail.2⟩

theorem Refines.ite {c : Prop} [Decidable c] {m n : EStateM ε σ α} {m' n' : EStateM ε τ α}
    (yes : c → Refines size spot erase pre post m m')
    (no : ¬ c → Refines size spot erase pre post n n') :
    Refines size spot erase pre post (if c then m else n) (if c then m' else n') := by
  by_cases holds : c
  · rw [if_pos holds, if_pos holds]
    exact yes holds
  · rw [if_neg holds, if_neg holds]
    exact no holds

theorem Refines.weaken {pre' post' : Nat → Prop} {m : EStateM ε σ α} {m' : EStateM ε τ α}
    (refines : Refines size spot erase pre post m m') (before : ∀ off, pre' off → pre off)
    (after : ∀ off, post off → post' off) : Refines size spot erase pre' post' m m' := by
  intro s sound given
  have run := refines s sound (before _ given)
  cases result : m s with
  | ok a s' =>
      simp only [result] at run ⊢
      exact ⟨run.1, run.2.1, after _ run.2.2⟩
  | error e s' =>
      simp only [result] at run ⊢
      exact run

theorem Refines.times {step : EStateM ε σ Unit} {step' : EStateM ε τ Unit}
    (one : Refines size spot erase pre pre step step') (count : Nat) :
    Refines size spot erase pre pre (times step count) (times step' count) := by
  induction count with
  | zero => exact Refines.pure ()
  | succ count ih => exact Refines.bind one fun _ => ih

end Refinement

section Reading

variable {ε α : Type} {memory : List UInt8} {pre post : Nat → Prop}

def Spot.place (s : Spot) : Nat := s.off.toNat

def look (f : Nat → α) : EStateM ε Nat α := fun off => .ok (f off) off

theorem Spot.Sound.read {size : Nat} {s : Spot} (sound : s.Sound size) {index : UInt64}
    (inside : index.toNat < size) : (s.read index).Sound size where
  inside := by
    intro other member
    cases List.mem_cons.mp member with
    | inl same => exact same ▸ inside
    | inr before => exact sound.inside other before
  forward := sound.forward

theorem Spot.Sound.moved {size : Nat} {s : Spot} (sound : s.Sound size) {off : UInt64}
    (ahead : s.off.toNat ≤ off.toNat) : (s.moved off).Sound size where
  inside := sound.inside
  forward := by
    refine List.pairwise_cons.mpr ⟨?_, sound.forward⟩
    intro earlier member
    cases List.mem_cons.mp member with
    | inl same => exact same ▸ ahead
    | inr before =>
        exact Nat.le_trans ((List.pairwise_cons.mp sound.forward).1 earlier before) ahead

theorem Refines.moveTo {size : Nat} {f : UInt64 → UInt64} {g : Nat → Nat}
    (same : ∀ off : UInt64, pre off.toNat → (f off).toNat = g off.toNat)
    (ahead : ∀ off, pre off → off ≤ g off ∧ post (g off)) :
    Refines size id Spot.place pre post (moveTo f : EStateM ε Spot Unit)
      fun off => .ok () (g off) := by
  intro s sound given
  have here := same s.off given
  have there := ahead s.off.toNat given
  refine ⟨?_, ⟨?_, List.suffix_cons _ _⟩, ?_⟩
  · exact congrArg (EStateM.Result.ok ()) here.symm
  · exact Spot.Sound.moved sound (here ▸ there.1)
  · change post (f s.off).toNat
    rw [here]
    exact there.2

variable (short : memory.length < 2 ^ 63)
include short

theorem toNat_add_inside {off k : UInt64} (inside : off.toNat + k.toNat ≤ memory.length) :
    (off + k).toNat = off.toNat + k.toNat := by
  rw [UInt64.toNat_add]
  exact Nat.mod_eq_of_lt (by omega)

theorem Refines.peek (needed : Nat) (k : UInt64) (small : k.toNat < needed) :
    Refines memory.length id Spot.place (fun off => off + needed ≤ memory.length)
      (fun off => off + needed ≤ memory.length) (peek memory k : EStateM ε Spot UInt8)
      (look fun off => memory.getD (off + k.toNat) 0) := by
  intro s sound given
  have within : s.off.toNat + k.toNat < memory.length := by
    have given' : s.off.toNat + needed ≤ memory.length := given
    omega
  have index := toNat_add_inside short (Nat.le_of_lt within)
  refine ⟨?_, ⟨Spot.Sound.read sound (index ▸ within), List.suffix_refl _⟩, given⟩
  simp only [look, Spot.place, index]
  rfl

theorem readFrom_run (count : Nat) (index : UInt64) {s : Spot} (sound : s.Sound memory.length)
    (room : index.toNat + count ≤ memory.length) :
    ∃ reads, readFrom memory count index s =
        (.ok ((memory.drop index.toNat).take count) { s with reads } : EStateM.Result ε Spot _) ∧
      Spot.Sound memory.length { s with reads } := by
  induction count generalizing index s with
  | zero => exact ⟨s.reads, by rw [List.take_zero]; rfl, sound⟩
  | succ count ih =>
      have within : index.toNat < memory.length := by omega
      have next : (index + 1).toNat = index.toNat + 1 :=
        toNat_add_inside (k := 1) short (by rw [UInt64.toNat_one]; omega)
      obtain ⟨reads, rest, after⟩ := ih (index + 1) (Spot.Sound.read sound within) (by omega)
      refine ⟨reads, ?_, after⟩
      simp only [readFrom, rest, next]
      rw [List.drop_eq_getElem_cons within, List.take_succ_cons, List.getD_eq_getElem _ _ within]
      rfl

theorem Refines.peekMany {count needed : Nat} (few : count ≤ needed) :
    Refines memory.length id Spot.place (fun off => off + needed ≤ memory.length)
      (fun off => off + needed ≤ memory.length) (peekMany memory count : EStateM ε Spot _)
      (look fun off => (memory.drop off).take count) := by
  intro s sound given
  have room : s.off.toNat + needed ≤ memory.length := given
  obtain ⟨reads, run, after⟩ := readFrom_run (ε := ε) short count s.off sound (by omega)
  have whole : (Guarded.peekMany memory count : EStateM ε Spot _) s = _ := run
  rw [whole]
  exact ⟨rfl, ⟨after, List.suffix_refl _⟩, room⟩

end Reading

section Objects

variable {ε σ τ α : Type} {size : Nat} {pre post : Nat → Prop}

/-- A decoder that fills an object refines one with an unbounded offset. -/
abbrev RefinesOn (size : Nat) (pre post : Nat → Prop) (m : Decode ε σ α)
    (m' : InPlace.Decode ε σ α) : Prop :=
  Refines size Place.spot Place.cursor pre post m m'

theorem Refines.position {m : EStateM ε Spot α} {m' : EStateM ε Nat α}
    (refines : Refines size id Spot.place pre post m m') :
    RefinesOn size pre post (position m : Decode ε σ α) (InPlace.position m') := by
  intro p sound given
  have run := refines p.spot sound given
  cases result : m p.spot with
  | ok a spot =>
      simp only [result] at run
      have inner : m' p.spot.off.toNat = .ok a spot.off.toNat := run.1
      simp only [Guarded.position, InPlace.position, result, Place.cursor, inner]
      exact ⟨trivial, run.2⟩
  | error e spot =>
      simp only [result] at run
      have inner : m' p.spot.off.toNat = .error e spot.off.toNat := run.1
      simp only [Guarded.position, InPlace.position, result, Place.cursor, inner]
      exact ⟨trivial, run.2⟩

theorem Refines.assign (v : σ) :
    RefinesOn size pre pre (assign v : Decode ε σ Unit) (InPlace.assign v) :=
  fun _ sound given => ⟨rfl, Goes.refl sound, given⟩

theorem Refines.update (f : σ → σ) :
    RefinesOn size pre pre (update f : Decode ε σ Unit) (InPlace.update f) :=
  fun _ sound given => ⟨rfl, Goes.refl sound, given⟩

theorem Refines.onPart {get : σ → τ} {put : σ → τ → σ} {m : Decode ε τ α}
    {m' : InPlace.Decode ε τ α} (refines : RefinesOn size pre post m m') :
    RefinesOn size pre post (onPart get put m) (InPlace.onPart get put m') := by
  intro p sound given
  have run := refines ⟨p.spot, get p.obj⟩ sound given
  cases result : m ⟨p.spot, get p.obj⟩ with
  | ok a q =>
      simp only [result] at run
      have inner : m' ⟨p.spot.off.toNat, get p.obj⟩ = .ok a ⟨q.spot.off.toNat, q.obj⟩ := run.1
      simp only [Guarded.onPart, InPlace.onPart, result, Place.cursor, inner]
      exact ⟨trivial, run.2⟩
  | error e q =>
      simp only [result] at run
      have inner : m' ⟨p.spot.off.toNat, get p.obj⟩ = .error e ⟨q.spot.off.toNat, q.obj⟩ := run.1
      simp only [Guarded.onPart, InPlace.onPart, result, Place.cursor, inner]
      exact ⟨trivial, run.2⟩

theorem Refines.markAnd {first : Bool} {mark : σ → σ} {fill : Decode ε σ Unit}
    {fill' : InPlace.Decode ε σ Unit} (refines : RefinesOn size pre pre fill fill') :
    RefinesOn size pre pre (markAnd first mark fill) (InPlace.markAnd first mark fill') :=
  Refines.ite (fun _ => Refines.bind (Refines.update mark) fun _ => refines)
    fun _ => Refines.bind refines fun _ => Refines.update mark

theorem Refines.onNew {init : τ} {m : Decode ε τ Unit} {m' : InPlace.Decode ε τ Unit}
    (refines : RefinesOn size pre post m m') :
    RefinesOn size pre post (onNew init m : Decode ε σ τ) (InPlace.onNew init m') := by
  intro p sound given
  have run := refines ⟨p.spot, init⟩ sound given
  cases result : m ⟨p.spot, init⟩ with
  | ok a q =>
      simp only [result] at run
      have inner : m' ⟨p.spot.off.toNat, init⟩ = .ok a ⟨q.spot.off.toNat, q.obj⟩ := run.1
      simp only [Guarded.onNew, InPlace.onNew, result, Place.cursor, inner]
      exact ⟨trivial, run.2⟩
  | error e q =>
      simp only [result] at run
      have inner : m' ⟨p.spot.off.toNat, init⟩ = .error e ⟨q.spot.off.toNat, q.obj⟩ := run.1
      simp only [Guarded.onNew, InPlace.onNew, result, Place.cursor, inner]
      exact ⟨trivial, run.2⟩

theorem Refines.modifyOrThrow (f : σ → Except ε σ) :
    RefinesOn size pre pre (modifyOrThrow f) (InPlace.modifyOrThrow f) := by
  intro p sound given
  cases result : f p.obj with
  | ok v =>
      simp only [Guarded.modifyOrThrow, InPlace.modifyOrThrow, Place.cursor, result]
      exact ⟨trivial, Goes.refl sound, given⟩
  | error e =>
      simp only [Guarded.modifyOrThrow, InPlace.modifyOrThrow, Place.cursor, result]
      exact ⟨trivial, Goes.refl sound⟩

end Objects

end Guarded
