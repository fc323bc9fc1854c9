import Arcal.Lib.Focus
import Mathlib.Logic.Function.Basic

/-! Objects in a store that are written part by part while others are read. `Writes` says
what a program leaves at one place, and that it leaves nothing anywhere else. -/

namespace Store

open InPlace (bind_ok)

/-- A place in a store, or a part of an object. -/
structure Ref (σ α : Type) where
  get : σ → α
  put : σ → α → σ
  get_put : ∀ s v, get (put s v) = v
  put_get : ∀ s, put s (get s) = s
  put_put : ∀ s v w, put (put s v) w = put s w

attribute [simp] Ref.get_put Ref.put_get Ref.put_put

variable {ε σ α β γ : Type}

def Ref.fst : Ref (α × β) α where
  get := Prod.fst
  put := fun pair first => (first, pair.2)
  get_put := fun _ _ => rfl
  put_get := fun _ => rfl
  put_put := fun _ _ _ => rfl

def Ref.snd : Ref (α × β) β where
  get := Prod.snd
  put := fun pair second => (pair.1, second)
  get_put := fun _ _ => rfl
  put_get := fun _ => rfl
  put_put := fun _ _ _ => rfl

def Ref.part (place : Ref σ α) (inner : Ref α β) : Ref σ β where
  get := fun s => inner.get (place.get s)
  put := fun s v => place.put s (inner.put (place.get s) v)
  get_put := fun s v => by rw [place.get_put, inner.get_put]
  put_get := fun s => by rw [inner.put_get, place.put_get]
  put_put := fun s v w => by rw [place.get_put, place.put_put, inner.put_put]

theorem Ref.get_snd_put_fst (place : Ref σ (α × β)) (s : σ) (v : α) :
    (place.part .snd).get ((place.part .fst).put s v) = (place.part .snd).get s := by
  simp only [Ref.part, Ref.get_put]
  rfl

theorem Ref.get_fst_put_snd (place : Ref σ (α × β)) (s : σ) (v : β) :
    (place.part .fst).get ((place.part .snd).put s v) = (place.part .fst).get s := by
  simp only [Ref.part, Ref.get_put]
  rfl

def Ref.object {ι : Type} [DecidableEq ι] (i : ι) : Ref (ι → α) α where
  get := fun objects => objects i
  put := fun objects v => Function.update objects i v
  get_put := fun objects v => Function.update_self i v objects
  put_get := fun objects => Function.update_eq_self i objects
  put_put := fun objects v w => Function.update_idem v w objects

/-- Writing to the place does not change what is read. -/
def Apart (place : Ref σ α) (read : σ → β) : Prop := ∀ s v, read (place.put s v) = read s

theorem Apart.part {place : Ref σ α} {read : σ → β} (apart : Apart place read) (inner : Ref α γ) :
    Apart (place.part inner) read := fun s _ => apart s _

theorem Apart.then {place : Ref σ α} {read : σ → β} (apart : Apart place read) (f : β → γ) :
    Apart place fun s => f (read s) := fun s v => congrArg f (apart s v)

theorem Apart.object {ι : Type} [DecidableEq ι] {dst src : ι} (distinct : dst ≠ src) :
    Apart (Ref.object dst) fun objects : ι → α => objects src :=
  fun objects v => by
    change Function.update objects dst v src = objects src
    exact Function.update_of_ne distinct.symm v objects

def assign (dst : Ref σ α) (src : σ → α) : EStateM ε σ Unit := fun s => .ok () (dst.put s (src s))

def whenever (condition : σ → Bool) (step : EStateM ε σ Unit) : EStateM ε σ Unit := fun s =>
  if condition s then step s else .ok () s

/-- A range-based `for` over what is read when it starts. -/
def forEach (read : σ → List α) (step : α → EStateM ε σ Unit) : EStateM ε σ Unit := fun s =>
  Focus.each step (read s) s

/-- The program returns, has written to the place only, and what it wrote is as said. -/
def Writes (dst : Ref σ α) (shown : σ → α → Prop) (step : EStateM ε σ Unit) : Prop :=
  ∀ s, ∃ v, step s = .ok () (dst.put s v) ∧ shown s v

theorem Writes.assign (dst : Ref σ α) (src : σ → α) :
    Writes dst (fun s v => v = src s) (assign dst src : EStateM ε σ Unit) :=
  fun s => ⟨src s, rfl, rfl⟩

theorem Writes.imp {dst : Ref σ α} {shown shown' : σ → α → Prop} {step : EStateM ε σ Unit}
    (writes : Writes dst shown step) (weaker : ∀ s v, shown s v → shown' s v) :
    Writes dst shown' step := by
  intro s
  obtain ⟨v, run, holds⟩ := writes s
  exact ⟨v, run, weaker s v holds⟩

theorem Writes.whenever {dst : Ref σ α} {shown : σ → α → Prop} {step : EStateM ε σ Unit}
    (writes : Writes dst shown step) (condition : σ → Bool) :
    Writes dst (fun s v => condition s = true → shown s v) (whenever condition step) := by
  intro s
  cases holds : condition s with
  | true =>
      obtain ⟨v, run, said⟩ := writes s
      exact ⟨v, by simp only [Store.whenever, holds, if_true, run], fun _ => said⟩
  | false =>
      refine ⟨dst.get s, ?_, fun yes => by rw [holds] at yes; cases yes⟩
      simp only [Store.whenever, holds, Bool.false_eq_true, if_false, Ref.put_get]

theorem Writes.whenever_value {dst : Ref σ α} {value : σ → α} {step : EStateM ε σ Unit}
    (writes : Writes dst (fun s v => v = value s) step) (condition : σ → Bool) :
    Writes dst (fun s v => v = if condition s then value s else dst.get s)
      (Store.whenever condition step) := by
  intro s
  cases holds : condition s with
  | true =>
      obtain ⟨v, run, same⟩ := writes s
      refine ⟨v, ?_, ?_⟩
      · simp only [Store.whenever, holds, if_true, run]
      · simp only [holds, if_true, same]
  | false =>
      refine ⟨dst.get s, ?_, by simp only [holds, Bool.false_eq_true, if_false]⟩
      simp only [Store.whenever, holds, Bool.false_eq_true, if_false, Ref.put_get]

/-- Two parts, one after the other: what the second writes leaves the first, and what the
first writes does not change what the second shows. -/
theorem Writes.inTurn {dst : Ref σ α} (one : Ref α β) (two : Ref α γ) {shown : σ → β → Prop}
    {shown' : σ → γ → Prop} {step step' : EStateM ε σ Unit} (apart : Apart two one.get)
    (first : Writes (dst.part one) shown step) (second : Writes (dst.part two) shown' step')
    (stable : ∀ s v w, shown' ((dst.part one).put s v) w → shown' s w) :
    Writes dst (fun s v => shown s (one.get v) ∧ shown' s (two.get v)) (do step; step') := by
  intro s
  obtain ⟨v, run, said⟩ := first s
  obtain ⟨w, run', said'⟩ := second ((dst.part one).put s v)
  refine ⟨two.put (one.put (dst.get s) v) w, ?_, ?_, ?_⟩
  · rw [bind_ok run, run']
    simp only [Ref.part, Ref.get_put, Ref.put_put]
  · rw [apart, one.get_put]
    exact said
  · rw [two.get_put]
    exact stable s v w said'

theorem Writes.both {dst : Ref σ α} (one : Ref α β) (two : Ref α γ) {shown : σ → β → Prop}
    {shown' : σ → γ → Prop} {step step' : EStateM ε σ Unit} (apart : Apart two one.get)
    (first : Writes (dst.part one) shown step) (second : Writes (dst.part two) shown' step')
    (stable : ∀ s v w, shown' (dst.put s v) w → shown' s w) :
    Writes dst (fun s v => shown s (one.get v) ∧ shown' s (two.get v)) (do step; step') :=
  first.inTurn one two apart second fun s _ w said => stable s _ w said

end Store
