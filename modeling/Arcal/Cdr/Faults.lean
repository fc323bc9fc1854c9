import Arcal.Base.Fault
import Arcal.Cdr.Codec

/-! What the CDR handlers find wrong with a buffer: `scan` walks over it from an offset and
ends at the next one, or at the first fault. The destination plays no part. -/

namespace Arcal.Cdr

open Schema InPlace Verdict

section Scans

/-- A helper's value and the offset behind it; a helper has no fault but a refusal. -/
def take {α : Type} (reader : Reader α) (off : Nat) : Except Fault (α × Nat) :=
  match reader off with
  | .ok a stop => .ok (a, stop)
  | .error _ _ => .error .rejected

variable (buf : Bytes)

def scanValue (t : CxxType) (off : Nat) : Except Fault Nat :=
  match t with
  | .uuid => do
      let read ← take (decodeString buf) off
      UUID.check read.1
      return read.2
  | t => do
      let read ← take (decode buf t) off
      return read.2

def scanOptional (scan : Nat → Except Fault Nat) (present : Bool) (off : Nat) :
    Except Fault Nat :=
  if present then scan off else .ok off

def scanItems (scan : Nat → Except Fault Nat) (maxOccurs : Option Nat) (held : Nat) :
    (count off : Nat) → Except Fault Nat
  | 0, off => .ok off
  | count + 1, off => do
      let stop ← scan off
      if ∀ limit ∈ maxOccurs, held < limit then scanItems scan maxOccurs (held + 1) count stop
      else .error .rejected

mutual
def Elem.scan : Elem → Nat → Except Fault Nat
  | .prim t, off => scanValue buf t off
  | .enum _ _, off => do
      let read ← take (decodeUint32 buf) off
      return read.2
  | .cls _ body, off => Members.scan body off

def Members.scan : Members → Nat → Except Fault Nat
  | .nil, off => .ok off
  | .base _ body rest, off => do
      let off ← Members.scan body off
      Members.scan rest off
  | .choice variants rest, off => do
      let read ← take (decodeUint32 buf) off
      let off ← Variants.scan variants read.1.toNat 1 read.2
      Members.scan rest off
  | .required _ elem rest, off => do
      let off ← Elem.scan elem off
      Members.scan rest off
  | .optional _ elem rest, off => do
      let read ← take (decodeOptionalFlag buf) off
      let off ← scanOptional (fun off => Elem.scan elem off) read.1 read.2
      Members.scan rest off
  | .list _ maxOccurs elem rest, off => do
      let read ← take (decodeSequenceLength buf) off
      let off ← scanItems (fun off => Elem.scan elem off) maxOccurs 0 read.1.toNat read.2
      Members.scan rest off

def Variants.scan : Variants → (ordinal index : Nat) → Nat → Except Fault Nat
  | .nil, _, _, off => .ok off
  | .cons _ elem rest, ordinal, index, off =>
      if ordinal = index then Elem.scan elem off
      else Variants.scan rest ordinal (index + 1) off
end

end Scans

def Refuses {α : Type} (reader : Reader α) : Prop :=
  ∀ off e stop, reader off = .error e stop → ∃ what, e = .uciException what

namespace Refuses

variable {α β : Type}

theorem pure (a : α) : Refuses (pure a : Reader α) := by
  intro off e stop thrown
  cases thrown

theorem consume (needed : Nat) (value : Nat → α) : Refuses (consume needed value) := by
  intro off e stop thrown
  cases thrown

theorem alignOffset (alignment : Nat) : Refuses (alignOffset alignment) := by
  intro off e stop thrown
  cases thrown

theorem checkBounds (buf : Bytes) (needed : Nat) : Refuses (checkBounds buf needed) := by
  intro off e stop thrown
  unfold Cdr.checkBounds at thrown
  split at thrown
  · injection thrown with same _
    exact ⟨_, same.symm⟩
  · cases thrown

theorem bind {reader : Reader α} {next : α → Reader β} (first : Refuses reader)
    (rest : ∀ a, Refuses (next a)) : Refuses (reader >>= next) := by
  intro off e stop thrown
  cases run : reader off with
  | ok a mid =>
      rw [bind_ok run] at thrown
      exact rest a mid e stop thrown
  | error e' mid =>
      rw [bind_error run] at thrown
      injection thrown with same _
      rw [← same]
      exact first off e' mid run

theorem ite {c : Prop} [Decidable c] {yes no : Reader α} (left : Refuses yes)
    (right : Refuses no) : Refuses (if c then yes else no) := by
  split
  · exact left
  · exact right

variable (buf : Bytes)

theorem aligned (alignment needed : Nat) (value : Nat → α) : Refuses (do
    Cdr.alignOffset alignment
    Cdr.checkBounds buf needed
    Cdr.consume needed value) :=
  (alignOffset alignment).bind fun _ => (checkBounds buf needed).bind fun _ => consume needed value

theorem decodeUint8 : Refuses (decodeUint8 buf) :=
  (checkBounds buf 1).bind fun _ => consume 1 _

theorem decodeBool : Refuses (decodeBool buf) :=
  (checkBounds buf 1).bind fun _ => consume 1 _

theorem decodeUint32 : Refuses (decodeUint32 buf) := aligned buf 4 4 _

theorem decodeString : Refuses (decodeString buf) :=
  (decodeUint32 buf).bind fun len =>
    ite (pure []) ((checkBounds buf len.toNat).bind fun _ => consume len.toNat _)

theorem decode {t : CxxType} (other : t ≠ .uuid) : Refuses (Cdr.decode buf t) := by
  cases t with
  | uuid => exact absurd rfl other
  | bool => exact decodeBool buf
  | int8 => exact (decodeUint8 buf).bind fun _ => pure _
  | uint8 => exact decodeUint8 buf
  | int16 => exact (aligned buf 2 2 _).bind fun _ => pure _
  | uint16 => exact aligned buf 2 2 _
  | int32 => exact (decodeUint32 buf).bind fun _ => pure _
  | uint32 => exact decodeUint32 buf
  | int64 => exact (aligned buf 8 8 _).bind fun _ => pure _
  | uint64 => exact aligned buf 8 8 _
  | float => exact decodeUint32 buf
  | double => exact aligned buf 8 8 _
  | string => exact decodeString buf
  | bytes =>
      exact (decodeUint32 buf).bind fun len =>
        (checkBounds buf len.toNat).bind fun _ => consume len.toNat _

end Refuses

def Reads {α : Type} (a : α) (off : Nat) (read : α × Nat) : Prop := read = (a, off)

theorem foreseen_take {α : Type} {reader : Reader α} (refuses : Refuses reader) (off : Nat) :
    Foreseen Fault.Thrown Reads (reader off) (take reader off) := by
  unfold take
  cases run : reader off with
  | ok a stop => exact rfl
  | error e stop =>
      rcases refuses off e stop run with ⟨what, same⟩
      rw [same]
      trivial

abbrev StopsLike {σ α : Type} (result : EStateM.Result Exc (Cursor σ) α)
    (scan : Except Fault Nat) : Prop :=
  Foreseen Fault.Thrown StopsAt result scan

theorem foreseen_read {σ α : Type} {reader : Reader α} (refuses : Refuses reader)
    (c : Cursor σ) :
    Foreseen Fault.Thrown (fun a d read => d.obj = c.obj ∧ read = (a, d.off))
      (position reader c) (take reader c.off) :=
  foreseen_position (foreseen_take refuses c.off)

theorem stopsLike_assign {σ : Type} {reader : Reader σ} {scan : Except Fault Nat} (c : Cursor σ)
    (inner : Foreseen Fault.Thrown (fun _ off stop => off = stop) (reader c.off) scan) :
    StopsLike ((do
        let v ← position reader
        assign v : Decode Exc σ Unit) c) scan := by
  have moved := foreseen_position (c := c) inner
  cases run : position reader c with
  | ok v d =>
      rw [run] at moved
      rcases Foreseen.ok_iff.mp moved with ⟨stop, same, _, stops⟩
      rw [bind_ok run, assign_run]
      exact Foreseen.ok_iff.mpr ⟨stop, same, stops⟩
  | error e d =>
      rw [run] at moved
      rw [bind_error run]
      exact Foreseen.error_iff.mpr (Foreseen.error_iff.mp moved)

theorem foreseen_skip {α : Type} {reader : Reader α} (refuses : Refuses reader) (off : Nat) :
    Foreseen Fault.Thrown (fun _ at' stop => at' = stop) (reader off) (do
      let read ← take reader off
      return read.2 : Except Fault Nat) := by
  have taken := foreseen_take refuses off
  cases run : reader off with
  | ok a stop =>
      rw [run] at taken
      rcases Foreseen.ok_iff.mp taken with ⟨read, same, reads⟩
      rw [same]
      exact congrArg Prod.snd reads.symm
  | error e stop =>
      rw [run] at taken
      rcases Foreseen.error_iff.mp taken with ⟨fault, same, thrown⟩
      rw [same]
      exact thrown

theorem foreseen_scanValue (buf : Bytes) (t : CxxType) (off : Nat) :
    Foreseen Fault.Thrown (fun _ at' stop => at' = stop) (decode buf t off)
      (scanValue buf t off) := by
  by_cases isUuid : t = .uuid
  · subst isUuid
    apply Foreseen.bind (foreseen_take (Refuses.decodeString buf) off)
    intro text stop read reads
    rw [reads]
    have parsed := UUID.fromString_agree text
    unfold liftExcept
    cases run : UUID.fromString text with
    | ok uuid =>
        cases seen : UUID.check text with
        | ok _ => exact rfl
        | error fault =>
            rw [run, seen] at parsed
            exact parsed.elim
    | error e =>
        cases seen : UUID.check text with
        | ok _ =>
            rw [run, seen] at parsed
            exact parsed.elim
        | error fault =>
            rw [run, seen] at parsed
            exact parsed
  · have plain : scanValue buf t off = (do
        let read ← take (decode buf t) off
        return read.2) := by
      cases t with
      | uuid => exact absurd rfl isUuid
      | _ => rfl
    rw [plain]
    exact foreseen_skip (Refuses.decode buf isUuid) off

section Combinators

variable {σ : Type} {buf : Bytes}

theorem stopsLike_decodeOptional (generated : Bool) {inner : Decode Exc σ Unit}
    {scan : Nat → Except Fault Nat}
    (each : ∀ off obj, StopsLike (inner ⟨off, obj⟩) (scan off)) (c : Cursor (OptSlot σ)) :
    StopsLike (decodeOptional buf generated inner c) (do
      let read ← take (decodeOptionalFlag buf) c.off
      scanOptional scan read.1 read.2) := by
  apply Foreseen.bind (foreseen_read (Refuses.decodeBool buf) c)
  intro present d read reads
  rcases d with ⟨off, obj⟩
  rw [reads.2]
  cases present with
  | false => exact rfl
  | true => exact foreseen_mark fun start => foreseen_onPart (each off start.value)

theorem stopsLike_decodeChoice {selected : Nat → Option Bool} {inner : Nat → Decode Exc σ Unit}
    {scan : Nat → Nat → Except Fault Nat}
    (unselected : ∀ ordinal off, selected ordinal = none → scan ordinal off = .ok off)
    (each : ∀ ordinal off obj, StopsLike (inner ordinal ⟨off, obj⟩) (scan ordinal off))
    (c : Cursor (ChoiceSlot σ)) :
    StopsLike (decodeChoice buf selected inner c) (do
      let read ← take (decodeUint32 buf) c.off
      scan read.1.toNat read.2) := by
  apply Foreseen.bind (foreseen_read (Refuses.decodeUint32 buf) c)
  intro ordinal d read reads
  rcases d with ⟨off, slot⟩
  rw [reads.2]
  cases isCase : selected ordinal.toNat with
  | none =>
      rw [unselected ordinal.toNat off isCase]
      exact rfl
  | some generated =>
      exact foreseen_mark fun start => foreseen_onPart (each ordinal.toNat off start.store)

theorem stopsLike_items {maxOccurs : Option Nat} {fresh : σ} {copy : σ → σ}
    {inner : Decode Exc σ Unit} {scan : Nat → Except Fault Nat}
    (one : ∀ off, StopsLike (inner ⟨off, fresh⟩) (scan off)) (count off : Nat)
    (list : AccessorList maxOccurs σ) :
    StopsLike (times (pushItem fresh copy inner) count ⟨off, list⟩)
      (scanItems scan maxOccurs list.items.length count off) := by
  induction count generalizing off list with
  | zero => exact rfl
  | succ count ih =>
      have pushed : Foreseen Fault.Thrown
          (fun _ d stop => d.obj.items.length = list.items.length + 1 ∧ d.off = stop)
          (pushItem fresh copy inner ⟨off, list⟩)
          (scan off >>= fun stop =>
            if ∀ limit ∈ maxOccurs, list.items.length < limit then .ok stop
            else .error .rejected) := by
        apply Foreseen.bind (foreseen_item (one off))
        intro made d stop same
        rcases d with ⟨at', obj⟩
        rcases same with ⟨kept, rfl⟩
        change obj = list at kept
        rw [kept]
        by_cases room : ∀ limit ∈ maxOccurs, list.items.length < limit
        · rcases AccessorList.pushBack_room list (copy made) room with ⟨longer, run, items⟩
          rw [if_pos room, modifyOrThrow_ok run]
          refine ⟨?_, rfl⟩
          rw [items, List.length_append, List.length_singleton]
        · rw [if_neg room]
          simp only [modifyOrThrow, AccessorList.pushBack, dif_neg room]
          trivial
      have whole : scanItems scan maxOccurs list.items.length (count + 1) off =
          ((scan off >>= fun stop =>
            if ∀ limit ∈ maxOccurs, list.items.length < limit then .ok stop
            else .error .rejected) >>= fun stop =>
              scanItems scan maxOccurs (list.items.length + 1) count stop) := by
        rw [scanItems]
        cases scan off with
        | error fault => rfl
        | ok stop =>
            by_cases room : ∀ limit ∈ maxOccurs, list.items.length < limit
            · simp only [bind, Except.bind, if_pos room]
            · simp only [bind, Except.bind, if_neg room]
      rw [whole]
      apply Foreseen.bind pushed
      intro _ d stop same
      rcases d with ⟨at', longer⟩
      rcases same with ⟨size, rfl⟩
      rw [← size]
      exact ih at' longer

theorem stopsLike_decodeList {maxOccurs : Option Nat} {fresh : σ} {copy : σ → σ}
    {inner : Decode Exc σ Unit} {scan : Nat → Except Fault Nat}
    (one : ∀ off, StopsLike (inner ⟨off, fresh⟩) (scan off))
    (c : Cursor (AccessorList maxOccurs σ)) :
    StopsLike (decodeList buf fresh copy inner c) (do
      let read ← take (decodeSequenceLength buf) c.off
      scanItems scan maxOccurs 0 read.1.toNat read.2) := by
  apply Foreseen.bind (foreseen_read (Refuses.decodeUint32 buf) c)
  intro count d read reads
  rcases d with ⟨off, list⟩
  rw [reads.2, bind_ok (assign_run _ _)]
  exact stopsLike_items one count.toNat off .clear

end Combinators

theorem stopsLike_fst {σ τ : Type} {m : Decode Exc σ Unit} {scan : Except Fault Nat}
    {c : Cursor (σ × τ)} (inner : StopsLike (m ⟨c.off, c.obj.1⟩) scan) :
    StopsLike (onFst m c) scan := foreseen_onPart inner

theorem stopsLike_snd {σ τ : Type} {m : Decode Exc τ Unit} {scan : Except Fault Nat}
    {c : Cursor (σ × τ)} (inner : StopsLike (m ⟨c.off, c.obj.2⟩) scan) :
    StopsLike (onSnd m c) scan := foreseen_onPart inner

theorem Variants.scan_unselected (buf : Bytes) : (vs : Variants) → (ordinal index off : Nat) →
    Variants.selected vs ordinal index = none → Variants.scan buf vs ordinal index off = .ok off
  | .nil, _, _, _, _ => by simp only [Variants.scan]
  | .cons _ elem rest, ordinal, index, off, noCase => by
      simp only [Variants.selected] at noCase
      simp only [Variants.scan]
      by_cases here : ordinal = index
      · rw [if_pos here] at noCase
        cases noCase
      · rw [if_neg here] at noCase ⊢
        exact Variants.scan_unselected buf rest ordinal (index + 1) off noCase

variable (buf : Bytes)

mutual
/-- A handler throws for the first fault of its buffer, whatever its object holds. -/
theorem Elem.deserializeAt_stopsLike : (e : Elem) → (off : Nat) → (obj : e.Impl) →
    StopsLike (Elem.deserializeAt buf e ⟨off, obj⟩) (Elem.scan buf e off)
  | .prim t, off, obj => by
      simp only [Elem.deserializeAt, Elem.scan]
      exact stopsLike_assign ⟨off, obj⟩ (foreseen_scanValue buf t off)
  | .enum _ _, off, obj => by
      simp only [Elem.deserializeAt, Elem.scan]
      exact stopsLike_assign ⟨off, obj⟩ (foreseen_skip (Refuses.decodeUint32 buf) off)
  | .cls _ body, off, obj => by
      simp only [Elem.deserializeAt, Elem.scan]
      exact Members.deserializeAt_stopsLike body off obj

theorem Members.deserializeAt_stopsLike : (ms : Members) → (off : Nat) → (obj : ms.Impl) →
    StopsLike (Members.deserializeAt buf ms ⟨off, obj⟩) (Members.scan buf ms off)
  | .nil, off, obj => by
      simp only [Members.deserializeAt, Members.scan]
      exact Foreseen.pure rfl
  | .base _ body rest, off, obj => by
      simp only [Members.deserializeAt, Members.scan]
      apply Foreseen.bind
      · exact stopsLike_fst (Members.deserializeAt_stopsLike body off obj.1)
      · intro _ d stop stops
        rw [← stops]
        exact stopsLike_snd (Members.deserializeAt_stopsLike rest d.off d.obj.2)
  | .choice variants rest, off, obj => by
      simp only [Members.deserializeAt, Members.scan]
      rw [← bind_assoc]
      apply Foreseen.bind
      · exact stopsLike_fst (stopsLike_decodeChoice
          (fun ordinal off noCase => Variants.scan_unselected buf variants ordinal 1 off noCase)
          (fun ordinal off store => Variants.deserializeAt_stopsLike variants ordinal 1 off store)
          ⟨off, obj.1⟩)
      · intro _ d stop stops
        rw [← stops]
        exact stopsLike_snd (Members.deserializeAt_stopsLike rest d.off d.obj.2)
  | .required _ elem rest, off, obj => by
      simp only [Members.deserializeAt, Members.scan]
      apply Foreseen.bind
      · exact stopsLike_fst (Elem.deserializeAt_stopsLike elem off obj.1)
      · intro _ d stop stops
        rw [← stops]
        exact stopsLike_snd (Members.deserializeAt_stopsLike rest d.off d.obj.2)
  | .optional _ elem rest, off, obj => by
      simp only [Members.deserializeAt, Members.scan]
      rw [← bind_assoc]
      apply Foreseen.bind
      · exact stopsLike_fst (stopsLike_decodeOptional _
          (fun off value => Elem.deserializeAt_stopsLike elem off value) ⟨off, obj.1⟩)
      · intro _ d stop stops
        rw [← stops]
        exact stopsLike_snd (Members.deserializeAt_stopsLike rest d.off d.obj.2)
  | .list _ _ elem rest, off, obj => by
      simp only [Members.deserializeAt, Members.scan]
      rw [← bind_assoc]
      apply Foreseen.bind
      · exact stopsLike_fst (stopsLike_decodeList
          (fun off => Elem.deserializeAt_stopsLike elem off elem.fresh) ⟨off, obj.1⟩)
      · intro _ d stop stops
        rw [← stops]
        exact stopsLike_snd (Members.deserializeAt_stopsLike rest d.off d.obj.2)

theorem Variants.deserializeAt_stopsLike : (vs : Variants) → (ordinal index off : Nat) →
    (obj : vs.Impl) →
    StopsLike (Variants.deserializeAt buf vs ordinal index ⟨off, obj⟩)
      (Variants.scan buf vs ordinal index off)
  | .nil, ordinal, index, off, obj => by
      simp only [Variants.deserializeAt, Variants.scan]
      exact Foreseen.pure rfl
  | .cons _ elem rest, ordinal, index, off, obj => by
      simp only [Variants.deserializeAt, Variants.scan]
      split
      · exact stopsLike_fst (Elem.deserializeAt_stopsLike elem off obj.1)
      · exact stopsLike_snd
          (Variants.deserializeAt_stopsLike rest ordinal (index + 1) off obj.2)
end

end Arcal.Cdr
