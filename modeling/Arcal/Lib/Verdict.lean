import Arcal.Lib.Focus

/-! A scan reads the input of a program that may throw, without its object, and says how
the program ends: with a throw of some kind, or normally with a result. One rule for each
combinator of `Focus` and of `InPlace`. -/

namespace Verdict

variable {ε φ σ τ α β γ δ : Type}

/-- The run throws what the scan says, or both end and `see` relates the ends. -/
def Foreseen (kind : φ → ε → Prop) (see : α → σ → β → Prop) :
    EStateM.Result ε σ α → Except φ β → Prop
  | .ok a s, .ok b => see a s b
  | .error e _, .error f => kind f e
  | _, _ => False

variable {kind : φ → ε → Prop} {see : α → σ → β → Prop}

namespace Foreseen

theorem ok_iff {a : α} {s : σ} {scan : Except φ β} :
    Foreseen kind see (.ok a s) scan ↔ ∃ b, scan = .ok b ∧ see a s b := by
  cases scan with
  | ok b => simp [Foreseen]
  | error f => simp [Foreseen]

theorem error_iff {e : ε} {s : σ} {scan : Except φ β} :
    Foreseen kind see (.error e s) scan ↔ ∃ f, scan = .error f ∧ kind f e := by
  cases scan with
  | ok b => simp [Foreseen]
  | error f => simp [Foreseen]

theorem throws {result : EStateM.Result ε σ α} {scan : Except φ β}
    (foreseen : Foreseen kind see result scan) :
    (∃ a s b, result = .ok a s ∧ scan = .ok b) ∨
      (∃ e s f, result = .error e s ∧ scan = .error f ∧ kind f e) := by
  cases result with
  | ok a s =>
      rcases ok_iff.mp foreseen with ⟨b, same, _⟩
      exact .inl ⟨a, s, b, rfl, same⟩
  | error e s =>
      rcases error_iff.mp foreseen with ⟨f, same, said⟩
      exact .inr ⟨e, s, f, rfl, same, said⟩

theorem pure {a : α} {s : σ} {b : β} (related : see a s b) :
    Foreseen kind see ((pure a : EStateM ε σ α) s) (.ok b) := related

theorem bind {m : EStateM ε σ α} {next : α → EStateM ε σ γ} {scan : Except φ β}
    {scanNext : β → Except φ δ} {see' : γ → σ → δ → Prop} {s : σ}
    (first : Foreseen kind see (m s) scan)
    (rest : ∀ a s' b, see a s' b → Foreseen kind see' (next a s') (scanNext b)) :
    Foreseen kind see' ((m >>= next) s) (scan >>= scanNext) := by
  cases run : m s with
  | ok a s' =>
      rw [run] at first
      rcases ok_iff.mp first with ⟨b, same, related⟩
      rw [InPlace.bind_ok run, same]
      exact rest a s' b related
  | error e s' =>
      rw [run] at first
      rcases error_iff.mp first with ⟨f, same, said⟩
      rw [InPlace.bind_error run, same]
      exact said

end Foreseen

section Fill

open Focus

def Agree (kind : φ → ε → Prop) (see : α → β → Prop) : Except ε α → Except φ β → Prop
  | .ok a, .ok b => see a b
  | .error e, .error f => kind f e
  | _, _ => False

theorem foreseen_within {get : σ → τ} {put : σ → τ → σ} {m : Fill ε τ α} {scan : Except φ β}
    {seePart : α → τ → β → Prop} {obj : σ}
    (inner : Foreseen kind seePart (m (get obj)) scan)
    (outer : ∀ a part b, seePart a part b → see a (put obj part) b) :
    Foreseen kind see (within get put m obj) scan := by
  unfold within
  cases run : m (get obj) with
  | ok a part =>
      rw [run] at inner
      rcases Foreseen.ok_iff.mp inner with ⟨b, same, related⟩
      exact Foreseen.ok_iff.mpr ⟨b, same, outer a part b related⟩
  | error e part =>
      rw [run] at inner
      exact Foreseen.error_iff.mpr (Foreseen.error_iff.mp inner)

/-- The object does not show, so neither does a mark on it. -/
theorem foreseen_markAnd {first : Bool} {mark : σ → σ} {fill : Fill ε σ Unit}
    {scan : Except φ β} {see : β → Prop} {obj : σ}
    (inner : ∀ start, Foreseen kind (fun _ _ b => see b) (fill start) scan) :
    Foreseen kind (fun _ _ b => see b) (markAnd first mark fill obj) scan := by
  have plain := inner obj
  cases first with
  | true =>
      change Foreseen kind _ ((modify mark >>= fun _ => fill : Fill ε σ Unit) obj) scan
      rw [InPlace.bind_ok (modify_run mark obj)]
      exact inner (mark obj)
  | false =>
      change Foreseen kind _ ((fill >>= fun _ => modify mark : Fill ε σ Unit) obj) scan
      cases run : fill obj with
      | ok u filled =>
          rw [run] at plain
          rw [InPlace.bind_ok run, modify_run]
          exact Foreseen.ok_iff.mpr (Foreseen.ok_iff.mp plain)
      | error e filled =>
          rw [run] at plain
          rw [InPlace.bind_error run]
          exact plain

theorem foreseen_onNew {init : τ} {m : Fill ε τ Unit} {scan : Except φ β} {obj : σ}
    {seeNew : Unit → τ → β → Prop} (inner : Foreseen kind seeNew (m init) scan) :
    Foreseen kind (fun made end' b => end' = obj ∧ seeNew () made b)
      (onNew init m obj) scan := by
  unfold onNew
  cases run : m init with
  | ok u made =>
      rw [run] at inner
      rcases Foreseen.ok_iff.mp inner with ⟨b, same, related⟩
      exact Foreseen.ok_iff.mpr ⟨b, same, rfl, related⟩
  | error e made =>
      rw [run] at inner
      exact Foreseen.error_iff.mpr (Foreseen.error_iff.mp inner)

theorem foreseen_modifyOrThrow {f : σ → Except ε σ} {scan : Except φ β}
    {see : Unit → σ → β → Prop} {obj : σ}
    (agree : Agree kind (fun changed b => see () changed b) (f obj) scan) :
    Foreseen kind see (modifyOrThrow f obj) scan := by
  unfold modifyOrThrow
  cases run : f obj with
  | ok changed =>
      rw [run] at agree
      cases scan with
      | ok b => exact agree
      | error e => exact agree
  | error e =>
      rw [run] at agree
      cases scan with
      | ok b => exact agree
      | error e => exact agree

end Fill

section Decode

open InPlace

def StopsAt (_ : α) (c : Cursor σ) (off : Nat) : Prop := c.off = off

theorem foreseen_position {m : EStateM ε Nat α} {scan : Except φ β} {c : Cursor σ}
    {seeOff : α → Nat → β → Prop} (inner : Foreseen kind seeOff (m c.off) scan) :
    Foreseen kind (fun a d b => d.obj = c.obj ∧ seeOff a d.off b) (position m c) scan := by
  unfold position
  cases run : m c.off with
  | ok a off =>
      rw [run] at inner
      rcases Foreseen.ok_iff.mp inner with ⟨b, same, related⟩
      exact Foreseen.ok_iff.mpr ⟨b, same, rfl, related⟩
  | error e off =>
      rw [run] at inner
      exact Foreseen.error_iff.mpr (Foreseen.error_iff.mp inner)

theorem foreseen_onPart {get : σ → τ} {put : σ → τ → σ} {m : Decode ε τ α}
    {scan : Except φ Nat} {c : Cursor σ}
    (inner : Foreseen kind StopsAt (m ⟨c.off, get c.obj⟩) scan) :
    Foreseen kind StopsAt (onPart get put m c) scan := by
  unfold onPart
  cases run : m ⟨c.off, get c.obj⟩ with
  | ok a d =>
      rw [run] at inner
      rcases Foreseen.ok_iff.mp inner with ⟨off, same, stops⟩
      exact Foreseen.ok_iff.mpr ⟨off, same, stops⟩
  | error e d =>
      rw [run] at inner
      exact Foreseen.error_iff.mpr (Foreseen.error_iff.mp inner)

theorem foreseen_mark {first : Bool} {mark : σ → σ} {fill : Decode ε σ Unit}
    {scan : Except φ Nat} {c : Cursor σ}
    (inner : ∀ obj, Foreseen kind StopsAt (fill ⟨c.off, obj⟩) scan) :
    Foreseen kind StopsAt (InPlace.markAnd first mark fill c) scan := by
  have plain := inner c.obj
  cases first with
  | true =>
      change Foreseen kind _ ((update mark >>= fun _ => fill) c) scan
      rw [bind_ok (update_run mark c)]
      exact inner (mark c.obj)
  | false =>
      change Foreseen kind _ ((fill >>= fun _ => update mark) c) scan
      cases run : fill c with
      | ok u filled =>
          rw [run] at plain
          rcases Foreseen.ok_iff.mp plain with ⟨off, same, stops⟩
          rw [bind_ok run, update_run]
          exact Foreseen.ok_iff.mpr ⟨off, same, stops⟩
      | error e filled =>
          rw [run] at plain
          rw [bind_error run]
          exact plain

theorem foreseen_item {init : τ} {m : Decode ε τ Unit} {scan : Except φ Nat} {c : Cursor σ}
    (inner : Foreseen kind StopsAt (m ⟨c.off, init⟩) scan) :
    Foreseen kind (fun _ d off => d.obj = c.obj ∧ d.off = off) (InPlace.onNew init m c) scan := by
  unfold InPlace.onNew
  cases run : m ⟨c.off, init⟩ with
  | ok u d =>
      rw [run] at inner
      rcases Foreseen.ok_iff.mp inner with ⟨off, same, stops⟩
      exact Foreseen.ok_iff.mpr ⟨off, same, rfl, stops⟩
  | error e d =>
      rw [run] at inner
      exact Foreseen.error_iff.mpr (Foreseen.error_iff.mp inner)

end Decode

end Verdict
