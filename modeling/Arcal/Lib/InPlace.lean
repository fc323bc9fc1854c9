import Mathlib.Data.List.Basic

/-! Decoders that read a fixed buffer from a moving offset and update an object
in place. The state survives a throw, so what a failed decoder leaves behind can
be stated. `Local` compares two runs of one decoder, on a buffer and on an
extension of it. -/

namespace InPlace

/-- Where a decoder stands: the offset it reads at and the object it fills. -/
structure Cursor (σ : Type) where
  off : Nat
  obj : σ
  deriving DecidableEq

abbrev Decode (ε σ α : Type) := EStateM ε (Cursor σ) α

variable {ε σ τ α β : Type}

def position (m : EStateM ε Nat α) : Decode ε σ α := fun c =>
  match m c.off with
  | .ok a off => .ok a { c with off }
  | .error e off => .error e { c with off }

def assign (v : σ) : Decode ε σ Unit := fun c => .ok () { c with obj := v }

def update (f : σ → σ) : Decode ε σ Unit := fun c => .ok () { c with obj := f c.obj }

/-- Run a decoder on the part of the object that `get` reads and `put` writes. -/
def onPart (get : σ → τ) (put : σ → τ → σ) (m : Decode ε τ α) : Decode ε σ α := fun c =>
  match m ⟨c.off, get c.obj⟩ with
  | .ok a d => .ok a ⟨d.off, put c.obj d.obj⟩
  | .error e d => .error e ⟨d.off, put c.obj d.obj⟩

def onFst (m : Decode ε σ α) : Decode ε (σ × τ) α :=
  onPart Prod.fst (fun pair first => (first, pair.2)) m

def onSnd (m : Decode ε τ α) : Decode ε (σ × τ) α :=
  onPart Prod.snd (fun pair second => (pair.1, second)) m

def markAnd (first : Bool) (mark : σ → σ) (fill : Decode ε σ Unit) : Decode ε σ Unit :=
  if first then do
    update mark
    fill
  else do
    fill
    update mark

def onNew (init : τ) (m : Decode ε τ Unit) : Decode ε σ τ := fun c =>
  match m ⟨c.off, init⟩ with
  | .ok _ d => .ok d.obj { c with off := d.off }
  | .error e d => .error e { c with off := d.off }

def modifyOrThrow (f : σ → Except ε σ) : Decode ε σ Unit := fun c =>
  match f c.obj with
  | .ok v => .ok () { c with obj := v }
  | .error e => .error e c

def times (step : EStateM ε σ Unit) : Nat → EStateM ε σ Unit
  | 0 => pure ()
  | count + 1 => do
      step
      times step count

section Runs

theorem bind_ok {m : EStateM ε σ α} {f : α → EStateM ε σ β} {s s' : σ} {a : α}
    (first : m s = .ok a s') : (m >>= f) s = f a s' := by
  change EStateM.bind m f s = f a s'
  simp only [EStateM.bind, first]

theorem bind_error {m : EStateM ε σ α} {f : α → EStateM ε σ β} {s s' : σ} {e : ε}
    (first : m s = .error e s') : (m >>= f) s = .error e s' := by
  change EStateM.bind m f s = .error e s'
  simp only [EStateM.bind, first]

theorem bind_eq_ok {m : EStateM ε σ α} {f : α → EStateM ε σ β} {s s'' : σ} {b : β} :
    (m >>= f) s = .ok b s'' ↔ ∃ a s', m s = .ok a s' ∧ f a s' = .ok b s'' := by
  cases first : m s with
  | ok a s' => rw [bind_ok first]; simp
  | error e s' => rw [bind_error first]; simp

@[simp] theorem pure_run (a : α) (s : σ) : (pure a : EStateM ε σ α) s = .ok a s := rfl

@[simp] theorem assign_run (v : σ) (c : Cursor σ) :
    (assign v : Decode ε σ Unit) c = .ok () ⟨c.off, v⟩ := rfl

@[simp] theorem update_run (f : σ → σ) (c : Cursor σ) :
    (update f : Decode ε σ Unit) c = .ok () ⟨c.off, f c.obj⟩ := rfl

theorem position_ok {m : EStateM ε Nat α} {off off' : Nat} {obj : σ} {a : α}
    (inner : m off = .ok a off') : position m ⟨off, obj⟩ = .ok a ⟨off', obj⟩ := by
  simp only [position, inner]

theorem position_eq_ok {m : EStateM ε Nat α} {c d : Cursor σ} {a : α} :
    position m c = .ok a d ↔ m c.off = .ok a d.off ∧ d.obj = c.obj := by
  rcases c with ⟨off, obj⟩
  rcases d with ⟨off', obj'⟩
  cases inner : m off with
  | ok b stop => simp [position, inner, and_assoc, eq_comm]
  | error e stop => simp [position, inner]

theorem onFst_ok {m : Decode ε σ α} {off off' : Nat} {x x' : σ} {y : τ} {a : α}
    (inner : m ⟨off, x⟩ = .ok a ⟨off', x'⟩) :
    onFst m ⟨off, (x, y)⟩ = .ok a ⟨off', (x', y)⟩ := by
  simp only [onFst, onPart, inner]

theorem onSnd_ok {m : Decode ε τ α} {off off' : Nat} {x : σ} {y y' : τ} {a : α}
    (inner : m ⟨off, y⟩ = .ok a ⟨off', y'⟩) :
    onSnd m ⟨off, (x, y)⟩ = .ok a ⟨off', (x, y')⟩ := by
  simp only [onSnd, onPart, inner]

theorem onPart_eq_ok {get : σ → τ} {put : σ → τ → σ} {m : Decode ε τ α} {c d : Cursor σ}
    {a : α} : onPart get put m c = .ok a d ↔
      ∃ part, m ⟨c.off, get c.obj⟩ = .ok a ⟨d.off, part⟩ ∧ d.obj = put c.obj part := by
  rcases d with ⟨off', obj'⟩
  cases inner : m ⟨c.off, get c.obj⟩ with
  | ok b stop =>
      rcases stop with ⟨stopOff, stopObj⟩
      constructor
      · intro run
        simp only [onPart, inner] at run
        injection run with same rest
        injection rest with offEq objEq
        exact ⟨stopObj, by rw [same, offEq], objEq.symm⟩
      · intro given
        rcases given with ⟨part, run, rfl⟩
        injection run with same rest
        injection rest with offEq objEq
        simp only [onPart, inner, same, offEq, objEq]
  | error e stop => simp [onPart, inner]

theorem onFst_eq_ok {m : Decode ε σ α} {off off' : Nat} {x x' : σ} {y y' : τ} {a : α} :
    onFst m ⟨off, (x, y)⟩ = .ok a ⟨off', (x', y')⟩ ↔
      m ⟨off, x⟩ = .ok a ⟨off', x'⟩ ∧ y' = y := by
  simp only [onFst, onPart_eq_ok, Prod.mk.injEq]
  constructor
  · intro given
    rcases given with ⟨part, run, rfl, rfl⟩
    exact ⟨run, rfl⟩
  · intro given
    rcases given with ⟨run, rfl⟩
    exact ⟨x', run, rfl, rfl⟩

theorem onSnd_eq_ok {m : Decode ε τ α} {off off' : Nat} {x x' : σ} {y y' : τ} {a : α} :
    onSnd m ⟨off, (x, y)⟩ = .ok a ⟨off', (x', y')⟩ ↔
      m ⟨off, y⟩ = .ok a ⟨off', y'⟩ ∧ x' = x := by
  simp only [onSnd, onPart_eq_ok, Prod.mk.injEq]
  constructor
  · intro given
    rcases given with ⟨part, run, rfl, rfl⟩
    exact ⟨run, rfl⟩
  · intro given
    rcases given with ⟨run, rfl⟩
    exact ⟨y', run, rfl, rfl⟩

theorem both_eq_ok {m : Decode ε σ Unit} {n : Decode ε τ Unit} {off stop : Nat} {x x' : σ}
    {y y' : τ} :
    (onFst m >>= fun _ => onSnd n) ⟨off, (x, y)⟩ = .ok () ⟨stop, (x', y')⟩ ↔
      ∃ mid, m ⟨off, x⟩ = .ok () ⟨mid, x'⟩ ∧ n ⟨mid, y⟩ = .ok () ⟨stop, y'⟩ := by
  rw [bind_eq_ok]
  constructor
  · intro given
    rcases given with ⟨_, ⟨mid, first, second⟩, head, tail⟩
    rcases onFst_eq_ok.mp head with ⟨headRun, rfl⟩
    rcases onSnd_eq_ok.mp tail with ⟨tailRun, rfl⟩
    exact ⟨mid, headRun, tailRun⟩
  · intro given
    rcases given with ⟨mid, head, tail⟩
    exact ⟨(), ⟨mid, (x', y)⟩, onFst_ok head, onSnd_ok tail⟩

/-- If the mark and the part lie apart, their order does not show in a successful run. -/
theorem markAnd_eq_ok {first : Bool} {mark : σ → σ} {get : σ → τ} {put : σ → τ → σ}
    {inner : Decode ε τ Unit} {c d : Cursor σ} (apart : ∀ v, get (mark v) = get v)
    (commute : ∀ v w, put (mark v) w = mark (put v w)) :
    markAnd first mark (onPart get put inner) c = .ok () d ↔
      ∃ part, inner ⟨c.off, get c.obj⟩ = .ok () ⟨d.off, part⟩ ∧
        d.obj = mark (put c.obj part) := by
  cases first with
  | true =>
      change (update mark >>= fun _ => onPart get put inner) c = _ ↔ _
      rw [bind_ok (update_run mark c), onPart_eq_ok]
      simp only [apart, commute]
  | false =>
      change (onPart get put inner >>= fun _ => update mark) c = _ ↔ _
      rw [bind_eq_ok]
      constructor
      · intro run
        rcases run with ⟨_, mid, filled, marked⟩
        rcases onPart_eq_ok.mp filled with ⟨part, read, same⟩
        injection marked with _ stop
        rw [← stop]
        exact ⟨part, read, by rw [same]⟩
      · intro run
        rcases run with ⟨part, read, same⟩
        refine ⟨(), ⟨d.off, put c.obj part⟩, onPart_eq_ok.mpr ⟨part, read, rfl⟩, ?_⟩
        simp only [update, ← same]

theorem onNew_eq_ok {init made : τ} {m : Decode ε τ Unit} {c d : Cursor σ} :
    onNew init m c = .ok made d ↔ m ⟨c.off, init⟩ = .ok () ⟨d.off, made⟩ ∧ d.obj = c.obj := by
  rcases c with ⟨off, obj⟩
  rcases d with ⟨off', obj'⟩
  cases inner : m ⟨off, init⟩ with
  | ok u stop =>
      rcases stop with ⟨stopOff, stopObj⟩
      simp only [onNew, inner, EStateM.Result.ok.injEq, Cursor.mk.injEq, true_and]
      constructor
      · intro given
        rcases given with ⟨rfl, rfl, rfl⟩
        exact ⟨⟨rfl, rfl⟩, rfl⟩
      · intro given
        rcases given with ⟨⟨rfl, rfl⟩, rfl⟩
        exact ⟨rfl, rfl, rfl⟩
  | error e stop => simp [onNew, inner]

theorem modifyOrThrow_ok {f : σ → Except ε σ} {off : Nat} {v w : σ} (step : f v = .ok w) :
    modifyOrThrow f ⟨off, v⟩ = .ok () ⟨off, w⟩ := by
  simp only [modifyOrThrow, step]

theorem modifyOrThrow_eq_ok {f : σ → Except ε σ} {c d : Cursor σ} :
    modifyOrThrow f c = .ok () d ↔ f c.obj = .ok d.obj ∧ d.off = c.off := by
  rcases c with ⟨off, obj⟩
  rcases d with ⟨off', obj'⟩
  cases step : f obj with
  | ok v => simp [modifyOrThrow, step, eq_comm, and_comm]
  | error e => simp [modifyOrThrow, step]

end Runs

section Locality

/-- A successful run of `m` is a run of `m'` too; its offset never goes back, and
one that starts inside the first `bound` bytes stays inside them. -/
def Local (pos : σ → Nat) (bound : Nat) (m m' : EStateM ε σ α) : Prop :=
  ∀ s a s', m s = .ok a s' →
    m' s = .ok a s' ∧ pos s ≤ pos s' ∧ (pos s ≤ bound → pos s' ≤ bound)

variable {pos : σ → Nat} {bound : Nat}

theorem Local.pure (a : α) : Local pos bound (pure a : EStateM ε σ α) (pure a) := by
  intro s b s' run
  rw [pure_run] at run
  injection run with value state
  subst value state
  exact ⟨rfl, Nat.le_refl _, id⟩

theorem Local.throw (e : ε) (m' : EStateM ε σ α) :
    Local pos bound (fun s => .error e s) m' := by
  intro s a s' run
  cases run

theorem Local.bind {m m' : EStateM ε σ α} {f f' : α → EStateM ε σ β}
    (first : Local pos bound m m') (next : ∀ a, Local pos bound (f a) (f' a)) :
    Local pos bound (m >>= f) (m' >>= f') := by
  intro s b s'' run
  rcases bind_eq_ok.mp run with ⟨a, s', head, tail⟩
  rcases first s a s' head with ⟨headAgain, headMono, headInside⟩
  rcases next a s' b s'' tail with ⟨tailAgain, tailMono, tailInside⟩
  exact ⟨bind_eq_ok.mpr ⟨a, s', headAgain, tailAgain⟩, Nat.le_trans headMono tailMono,
    fun inside => tailInside (headInside inside)⟩

theorem Local.ite {c : Prop} [Decidable c] {m m' n n' : EStateM ε σ α}
    (yes : Local pos bound m m') (no : Local pos bound n n') :
    Local pos bound (if c then m else n) (if c then m' else n') := by
  split
  · exact yes
  · exact no

theorem Local.position {m m' : EStateM ε Nat α} (inner : Local id bound m m') :
    Local (Cursor.off (σ := σ)) bound (position m) (position m') := by
  intro c a d run
  rcases position_eq_ok.mp run with ⟨moved, same⟩
  rcases inner c.off a d.off moved with ⟨again, mono, inside⟩
  exact ⟨position_eq_ok.mpr ⟨again, same⟩, mono, inside⟩

theorem Local.assign (v : σ) :
    Local (Cursor.off (σ := σ)) bound (InPlace.assign v : Decode ε σ Unit) (InPlace.assign v) := by
  intro c a d run
  rw [assign_run] at run
  injection run with value state
  subst value state
  exact ⟨rfl, Nat.le_refl _, id⟩

theorem Local.update (f : σ → σ) :
    Local (Cursor.off (σ := σ)) bound (InPlace.update f : Decode ε σ Unit) (InPlace.update f) := by
  intro c a d run
  injection run with value state
  subst value state
  exact ⟨rfl, Nat.le_refl _, id⟩

theorem Local.markAnd {first : Bool} (mark : σ → σ) {fill fill' : Decode ε σ Unit}
    (inner : Local (Cursor.off (σ := σ)) bound fill fill') :
    Local (Cursor.off (σ := σ)) bound (markAnd first mark fill) (markAnd first mark fill') :=
  Local.ite (Local.bind (Local.update mark) fun _ => inner)
    (Local.bind inner fun _ => Local.update mark)

theorem Local.onPart {get : σ → τ} {put : σ → τ → σ} {m m' : Decode ε τ α}
    (inner : Local (Cursor.off (σ := τ)) bound m m') :
    Local (Cursor.off (σ := σ)) bound (onPart get put m) (onPart get put m') := by
  intro c a d run
  rcases onPart_eq_ok.mp run with ⟨part, moved, same⟩
  rcases inner _ a _ moved with ⟨again, mono, inside⟩
  exact ⟨onPart_eq_ok.mpr ⟨part, again, same⟩, mono, inside⟩

theorem Local.onNew {init : τ} {m m' : Decode ε τ Unit}
    (inner : Local (Cursor.off (σ := τ)) bound m m') :
    Local (Cursor.off (σ := σ)) bound (onNew init m) (onNew init m') := by
  intro c made d run
  rcases onNew_eq_ok.mp run with ⟨moved, same⟩
  rcases inner _ () _ moved with ⟨again, mono, inside⟩
  exact ⟨onNew_eq_ok.mpr ⟨again, same⟩, mono, inside⟩

theorem Local.modifyOrThrow (f : σ → Except ε σ) :
    Local (Cursor.off (σ := σ)) bound (modifyOrThrow f) (InPlace.modifyOrThrow f) := by
  intro c a d run
  rcases modifyOrThrow_eq_ok.mp run with ⟨step, same⟩
  exact ⟨run, same ▸ Nat.le_refl _, fun inside => same ▸ inside⟩

theorem Local.times {step step' : EStateM ε σ Unit} (one : Local pos bound step step')
    (count : Nat) : Local pos bound (times step count) (times step' count) := by
  induction count with
  | zero => exact Local.pure ()
  | succ count ih => exact Local.bind one fun _ => ih

end Locality

end InPlace
