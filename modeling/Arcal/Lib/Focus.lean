import Arcal.Lib.InPlace

/-! Programs that fill an object from values they are given. There is nothing to read
from, so the object is the whole state; it survives a throw. -/

namespace Focus

variable {ε σ τ α β : Type}

abbrev Fill (ε σ α : Type) := EStateM ε σ α

def attempt (result : Except ε α) : Fill ε σ α := fun obj =>
  match result with
  | .ok a => .ok a obj
  | .error e => .error e obj

/-- Run on the part of the object that `get` reads and `put` writes. -/
def within (get : σ → τ) (put : σ → τ → σ) (m : Fill ε τ α) : Fill ε σ α := fun obj =>
  match m (get obj) with
  | .ok a part => .ok a (put obj part)
  | .error e part => .error e (put obj part)

def onFst (m : Fill ε σ α) : Fill ε (σ × τ) α :=
  within Prod.fst (fun pair first => (first, pair.2)) m

def onSnd (m : Fill ε τ α) : Fill ε (σ × τ) α :=
  within Prod.snd (fun pair second => (pair.1, second)) m

def markAnd (first : Bool) (mark : σ → σ) (fill : Fill ε σ Unit) : Fill ε σ Unit :=
  if first then do
    modify mark
    fill
  else do
    fill
    modify mark

def onNew (init : τ) (m : Fill ε τ Unit) : Fill ε σ τ := fun obj =>
  match m init with
  | .ok _ made => .ok made obj
  | .error e _ => .error e obj

def modifyOrThrow (f : σ → Except ε σ) : Fill ε σ Unit := fun obj =>
  match f obj with
  | .ok changed => .ok () changed
  | .error e => .error e obj

def each (step : α → Fill ε σ Unit) : List α → Fill ε σ Unit
  | [] => pure ()
  | a :: rest => do
      step a
      each step rest

section Runs

@[simp] theorem attempt_run (a : α) (obj : σ) :
    (attempt (.ok a) : Fill ε σ α) obj = .ok a obj := rfl

@[simp] theorem set_run (v obj : σ) : (set v : Fill ε σ PUnit) obj = .ok () v := rfl

@[simp] theorem modify_run (f : σ → σ) (obj : σ) :
    (modify f : Fill ε σ PUnit) obj = .ok () (f obj) := rfl

theorem attempt_ok {result : Except ε α} {a : α} (same : result = .ok a) (obj : σ) :
    (attempt result : Fill ε σ α) obj = .ok a obj := by
  rw [same]
  rfl

/-- A check in front: what follows runs on the same object, or not at all. -/
theorem attempt_bind_cases (result : Except ε α) (next : α → Fill ε σ β) (obj : σ) :
    (∃ e, result = .error e ∧ (attempt result >>= next) obj = .error e obj) ∨
      ∃ a, result = .ok a ∧ (attempt result >>= next) obj = next a obj := by
  cases result with
  | ok a => exact .inr ⟨a, rfl, rfl⟩
  | error e => exact .inl ⟨e, rfl, rfl⟩

theorem attempt_set_eq_ok {result : Except ε σ} {obj obj' : σ} :
    (attempt result >>= fun v => (set v : Fill ε σ PUnit)) obj = .ok () obj' ↔
      result = .ok obj' := by
  cases result with
  | ok v =>
      rw [InPlace.bind_ok (attempt_run v obj), set_run]
      simp
  | error e =>
      have stops : (attempt (.error e) : Fill ε σ σ) obj = .error e obj := rfl
      rw [InPlace.bind_error stops]
      simp

theorem within_eq_ok {get : σ → τ} {put : σ → τ → σ} {m : Fill ε τ α} {obj obj' : σ} {a : α} :
    within get put m obj = .ok a obj' ↔ ∃ part, m (get obj) = .ok a part ∧ obj' = put obj part := by
  cases inner : m (get obj) with
  | ok made part => simp [within, inner, eq_comm]
  | error e part => simp [within, inner]

theorem onFst_eq_ok {m : Fill ε σ α} {pair pair' : σ × τ} {a : α} :
    onFst m pair = .ok a pair' ↔ m pair.1 = .ok a pair'.1 ∧ pair'.2 = pair.2 := by
  rw [onFst, within_eq_ok]
  constructor
  · rintro ⟨part, inner, rfl⟩
    exact ⟨inner, rfl⟩
  · rintro ⟨inner, same⟩
    exact ⟨pair'.1, inner, Prod.ext rfl same⟩

theorem onSnd_eq_ok {m : Fill ε τ α} {pair pair' : σ × τ} {a : α} :
    onSnd m pair = .ok a pair' ↔ m pair.2 = .ok a pair'.2 ∧ pair'.1 = pair.1 := by
  rw [onSnd, within_eq_ok]
  constructor
  · rintro ⟨part, inner, rfl⟩
    exact ⟨inner, rfl⟩
  · rintro ⟨inner, same⟩
    exact ⟨pair'.2, inner, Prod.ext same rfl⟩

theorem both_eq_ok {m : Fill ε σ Unit} {n : Fill ε τ Unit} {pair pair' : σ × τ} :
    (onFst m >>= fun _ => onSnd n) pair = .ok () pair' ↔
      m pair.1 = .ok () pair'.1 ∧ n pair.2 = .ok () pair'.2 := by
  rw [InPlace.bind_eq_ok]
  constructor
  · rintro ⟨_, mid, first, second⟩
    obtain ⟨head, kept⟩ := onFst_eq_ok.mp first
    obtain ⟨tail, same⟩ := onSnd_eq_ok.mp second
    rw [same, ← kept]
    exact ⟨head, tail⟩
  · rintro ⟨head, tail⟩
    exact ⟨(), (pair'.1, pair.2), onFst_eq_ok.mpr ⟨head, rfl⟩, onSnd_eq_ok.mpr ⟨tail, rfl⟩⟩

/-- If the mark and the part lie apart, their order does not show in a successful run. -/
theorem markAnd_eq_ok {first : Bool} {mark : σ → σ} {get : σ → τ} {put : σ → τ → σ}
    {inner : Fill ε τ Unit} {obj obj' : σ} (apart : ∀ v, get (mark v) = get v)
    (commute : ∀ v w, put (mark v) w = mark (put v w)) :
    markAnd first mark (within get put inner) obj = .ok () obj' ↔
      ∃ part, inner (get obj) = .ok () part ∧ obj' = mark (put obj part) := by
  cases first with
  | true =>
      change (modify mark >>= fun _ => within get put inner) obj = _ ↔ _
      rw [InPlace.bind_ok (modify_run mark obj), within_eq_ok]
      simp only [apart, commute]
  | false =>
      change (within get put inner >>= fun _ => modify mark) obj = _ ↔ _
      rw [InPlace.bind_eq_ok]
      constructor
      · rintro ⟨_, mid, filled, marked⟩
        obtain ⟨part, read, same⟩ := within_eq_ok.mp filled
        rw [modify_run] at marked
        injection marked with _ stop
        exact ⟨part, read, by rw [← stop, same]⟩
      · rintro ⟨part, read, same⟩
        exact ⟨(), put obj part, within_eq_ok.mpr ⟨part, read, rfl⟩, by rw [modify_run, same]⟩

theorem onNew_eq_ok {init made : τ} {m : Fill ε τ Unit} {obj obj' : σ} :
    onNew init m obj = .ok made obj' ↔ m init = .ok () made ∧ obj' = obj := by
  cases inner : m init with
  | ok u part => simp [onNew, inner, eq_comm]
  | error e part => simp [onNew, inner]

theorem modifyOrThrow_eq_ok {f : σ → Except ε σ} {obj obj' : σ} :
    modifyOrThrow f obj = .ok () obj' ↔ f obj = .ok obj' := by
  cases step : f obj with
  | ok changed => simp [modifyOrThrow, step]
  | error e => simp [modifyOrThrow, step]

end Runs

end Focus
