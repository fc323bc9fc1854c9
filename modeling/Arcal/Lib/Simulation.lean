import Arcal.Lib.Focus

/-! One program seen through a function on its states. `Seen f g m n` says that `n` does on the
image of a state what `m` does on the state: it ends alike, with the image of the value and of
the state. -/

namespace Simulation

open InPlace (Cursor Decode)
open Focus (Fill)

variable {ε α β γ δ σ τ σ' τ' : Type}

def image (f : σ → τ) (g : α → β) : EStateM.Result ε σ α → EStateM.Result ε τ β
  | .ok a s => .ok (g a) (f s)
  | .error e s => .error e (f s)

def Seen (f : σ → τ) (g : α → β) (m : EStateM ε σ α) (n : EStateM ε τ β) : Prop :=
  ∀ s, n (f s) = image f g (m s)

def left : EStateM.Result ε σ α → σ
  | .ok _ s => s
  | .error _ s => s

theorem left_image (f : σ → τ) (g : α → β) (result : EStateM.Result ε σ α) :
    left (image f g result) = f (left result) := by
  cases result with
  | ok a s => rfl
  | error e s => rfl

section Sequences

variable {f : σ → τ} {g : α → β}

theorem Seen.pure (a : α) : Seen f g (pure a : EStateM ε σ α) (pure (g a)) := fun _ => rfl

theorem Seen.bind {h : γ → δ} {m : EStateM ε σ α} {n : EStateM ε τ β} {k : α → EStateM ε σ γ}
    {l : β → EStateM ε τ δ} (first : Seen f g m n) (next : ∀ a, Seen f h (k a) (l (g a))) :
    Seen f h (m >>= k) (n >>= l) := by
  intro s
  have start := first s
  cases run : m s with
  | ok a s' =>
      rw [run] at start
      rw [InPlace.bind_ok run, InPlace.bind_ok start]
      exact next a s'
  | error e s' =>
      rw [run] at start
      rw [InPlace.bind_error run, InPlace.bind_error start]
      rfl

theorem Seen.ite {c : Prop} [Decidable c] {m m' : EStateM ε σ α} {n n' : EStateM ε τ β}
    (yes : Seen f g m n) (no : Seen f g m' n') :
    Seen f g (if c then m else m') (if c then n else n') := by
  split
  · exact yes
  · exact no

theorem Seen.times {step : EStateM ε σ Unit} {step' : EStateM ε τ Unit}
    (one : Seen f id step step') (count : Nat) :
    Seen f id (InPlace.times step count) (InPlace.times step' count) := by
  induction count with
  | zero => exact Seen.pure ()
  | succ count ih => exact one.bind fun _ => ih

theorem Seen.each {step : α → Fill ε σ Unit} {step' : α → Fill ε τ Unit}
    (one : ∀ a, Seen f id (step a) (step' a)) (items : List α) :
    Seen f id (Focus.each step items) (Focus.each step' items) := by
  induction items with
  | nil => exact Seen.pure ()
  | cons a rest ih => exact (one a).bind fun _ => ih

end Sequences

def onCursor (f : σ → τ) (c : Cursor σ) : Cursor τ := ⟨c.off, f c.obj⟩

def onObject (m : EStateM ε σ α) : Decode ε σ α := fun c =>
  match m c.obj with
  | .ok a obj => .ok a { c with obj }
  | .error e obj => .error e { c with obj }

section Decoders

variable {f : σ → τ} {h : σ' → τ'} {g : α → β}

theorem Seen.position (m : EStateM ε Nat α) :
    Seen (onCursor f) id (InPlace.position m) (InPlace.position m) := by
  intro c
  simp only [InPlace.position, onCursor]
  cases m c.off with
  | ok a off => rfl
  | error e off => rfl

theorem Seen.assign (v : σ) :
    Seen (onCursor f) id (InPlace.assign v : Decode ε σ Unit) (InPlace.assign (f v)) :=
  fun _ => rfl

theorem Seen.update {mark : σ → σ} {mark' : τ → τ} (same : ∀ v, mark' (f v) = f (mark v)) :
    Seen (onCursor f) id (InPlace.update mark : Decode ε σ Unit) (InPlace.update mark') := by
  intro c
  simp only [InPlace.update, onCursor, same, image, id_eq]

theorem Seen.onPart {get : σ → σ'} {put : σ → σ' → σ} {get' : τ → τ'} {put' : τ → τ' → τ}
    (gets : ∀ v, get' (f v) = h (get v)) (puts : ∀ v part, put' (f v) (h part) = f (put v part))
    {m : Decode ε σ' α} {n : Decode ε τ' β} (inner : Seen (onCursor h) g m n) :
    Seen (onCursor f) g (InPlace.onPart get put m) (InPlace.onPart get' put' n) := by
  intro c
  have start := inner ⟨c.off, get c.obj⟩
  simp only [onCursor] at start
  simp only [InPlace.onPart, onCursor, gets, start]
  cases m ⟨c.off, get c.obj⟩ with
  | ok a d => simp only [image, onCursor, puts]
  | error e d => simp only [image, onCursor, puts]

theorem Seen.onFst {m : Decode ε σ α} {n : Decode ε τ β} (inner : Seen (onCursor f) g m n) :
    Seen (onCursor (Prod.map f h)) g (InPlace.onFst m) (InPlace.onFst n) := by
  have gets : ∀ v : σ × σ', (Prod.map f h v).1 = f v.1 := fun _ => rfl
  have puts : ∀ (v : σ × σ') (part : σ), (f part, (Prod.map f h v).2) = Prod.map f h (part, v.2) :=
    fun _ _ => rfl
  exact Seen.onPart gets puts inner

theorem Seen.onSnd {m : Decode ε σ' α} {n : Decode ε τ' β} (inner : Seen (onCursor h) g m n) :
    Seen (onCursor (Prod.map f h)) g (InPlace.onSnd m) (InPlace.onSnd n) := by
  have gets : ∀ v : σ × σ', (Prod.map f h v).2 = h v.2 := fun _ => rfl
  have puts : ∀ (v : σ × σ') (part : σ'), ((Prod.map f h v).1, h part) = Prod.map f h (v.1, part) :=
    fun _ _ => rfl
  exact Seen.onPart gets puts inner

theorem Seen.markAnd {first : Bool} {mark : σ → σ} {mark' : τ → τ}
    (same : ∀ v, mark' (f v) = f (mark v)) {m : Decode ε σ Unit} {n : Decode ε τ Unit}
    (inner : Seen (onCursor f) id m n) :
    Seen (onCursor f) id (InPlace.markAnd first mark m) (InPlace.markAnd first mark' n) :=
  Seen.ite ((Seen.update same).bind fun _ => inner) (inner.bind fun _ => Seen.update same)

theorem Seen.onNew (init : σ') {m : Decode ε σ' Unit} {n : Decode ε τ' Unit}
    (inner : Seen (onCursor h) id m n) :
    Seen (onCursor f) h (InPlace.onNew init m) (InPlace.onNew (h init) n) := by
  intro c
  have start := inner ⟨c.off, init⟩
  simp only [onCursor] at start
  simp only [InPlace.onNew, onCursor, start]
  cases m ⟨c.off, init⟩ with
  | ok a d => rfl
  | error e d => rfl

theorem Seen.onObject {m : EStateM ε σ α} {n : EStateM ε τ β} (inner : Seen f g m n) :
    Seen (onCursor f) g (onObject m) (onObject n) := by
  intro c
  have start := inner c.obj
  simp only [Simulation.onObject, onCursor, start]
  cases m c.obj with
  | ok a obj => rfl
  | error e obj => rfl

theorem modifyOrThrow_eq (step : σ → Except ε σ) :
    (InPlace.modifyOrThrow step : Decode ε σ Unit) =
      Simulation.onObject (Focus.modifyOrThrow step) := by
  funext c
  simp only [InPlace.modifyOrThrow, Simulation.onObject, Focus.modifyOrThrow]
  cases step c.obj with
  | ok v => rfl
  | error e => rfl

end Decoders

section Fills

variable {f : σ → τ} {h : σ' → τ'} {g : α → β}

theorem Seen.attempt (result : Except ε α) :
    Seen f id (Focus.attempt result) (Focus.attempt result) := by
  intro s
  cases result with
  | ok a => rfl
  | error e => rfl

theorem Seen.set (v : σ) : Seen f id (set v : Fill ε σ PUnit) (set (f v) : Fill ε τ PUnit) :=
  fun _ => rfl

theorem Seen.modify {mark : σ → σ} {mark' : τ → τ} (same : ∀ v, mark' (f v) = f (mark v)) :
    Seen f id (modify mark : Fill ε σ PUnit) (modify mark' : Fill ε τ PUnit) := by
  intro s
  rw [Focus.modify_run, Focus.modify_run, same]
  rfl

theorem Seen.within {get : σ → σ'} {put : σ → σ' → σ} {get' : τ → τ'} {put' : τ → τ' → τ}
    (gets : ∀ v, get' (f v) = h (get v)) (puts : ∀ v part, put' (f v) (h part) = f (put v part))
    {m : Fill ε σ' α} {n : Fill ε τ' β} (inner : Seen h g m n) :
    Seen f g (Focus.within get put m) (Focus.within get' put' n) := by
  intro s
  have start := inner (get s)
  simp only [Focus.within, gets, start]
  cases m (get s) with
  | ok a part => simp only [image, puts]
  | error e part => simp only [image, puts]

theorem Seen.fillFst {m : Fill ε σ α} {n : Fill ε τ β} (inner : Seen f g m n) :
    Seen (Prod.map f h) g (Focus.onFst m) (Focus.onFst n) := by
  have gets : ∀ v : σ × σ', (Prod.map f h v).1 = f v.1 := fun _ => rfl
  have puts : ∀ (v : σ × σ') (part : σ), (f part, (Prod.map f h v).2) = Prod.map f h (part, v.2) :=
    fun _ _ => rfl
  exact Seen.within gets puts inner

theorem Seen.fillSnd {m : Fill ε σ' α} {n : Fill ε τ' β} (inner : Seen h g m n) :
    Seen (Prod.map f h) g (Focus.onSnd m) (Focus.onSnd n) := by
  have gets : ∀ v : σ × σ', (Prod.map f h v).2 = h v.2 := fun _ => rfl
  have puts : ∀ (v : σ × σ') (part : σ'), ((Prod.map f h v).1, h part) = Prod.map f h (v.1, part) :=
    fun _ _ => rfl
  exact Seen.within gets puts inner

theorem Seen.fillMark {first : Bool} {mark : σ → σ} {mark' : τ → τ}
    (same : ∀ v, mark' (f v) = f (mark v)) {m : Fill ε σ Unit} {n : Fill ε τ Unit}
    (inner : Seen f id m n) :
    Seen f id (Focus.markAnd first mark m) (Focus.markAnd first mark' n) :=
  Seen.ite ((Seen.modify same).bind fun _ => inner) (inner.bind fun _ => Seen.modify same)

theorem Seen.fillNew (init : σ') {m : Fill ε σ' Unit} {n : Fill ε τ' Unit}
    (inner : Seen h id m n) : Seen f h (Focus.onNew init m) (Focus.onNew (h init) n) := by
  intro s
  have start := inner init
  simp only [Focus.onNew, start]
  cases m init with
  | ok a made => rfl
  | error e made => rfl

end Fills

end Simulation
