import Arcal.Cdr.Codec
import Arcal.Lib.Guarded

/-! The decode helpers and the generated handlers with the offset they really have: 64 bits
that wrap. They read inside the buffer only, and there they are the decoders of the model. -/

namespace Arcal.Cdr

open Schema
open InPlace (times)
open Guarded hiding assign update onPart onFst onSnd markAnd onNew modifyOrThrow position

namespace Machine

abbrev Reader (α : Type) := EStateM Exc Spot α

def size (buf : Bytes) : UInt64 := UInt64.ofNat buf.length

def alignOffset (alignment : UInt64) : Reader Unit :=
  moveTo fun off =>
    if alignment > 1 ∧ off % alignment ≠ 0 then off + (alignment - off % alignment) else off

def checkBounds (buf : Bytes) (needed : UInt64) : Reader Unit := fun s =>
  if s.off + needed > size buf then .error (underrun buf s.off.toNat needed.toNat) s else .ok () s

def advance (needed : UInt64) : Reader Unit := moveTo fun off => off + needed

def decodeBool (buf : Bytes) : Reader Bool := do
  checkBounds buf 1
  let byte ← peek buf 0
  advance 1
  return byte != 0

def decodeUint8 (buf : Bytes) : Reader UInt8 := do
  checkBounds buf 1
  let byte ← peek buf 0
  advance 1
  return byte

def decodeInt8 (buf : Bytes) : Reader Int8 := do
  let v ← decodeUint8 buf
  return v.toInt8

def decodeUint16 (buf : Bytes) : Reader UInt16 := do
  alignOffset 2
  checkBounds buf 2
  let high ← peek buf 0
  let low ← peek buf 1
  advance 2
  return (high.toUInt16 <<< 8) ||| low.toUInt16

def decodeInt16 (buf : Bytes) : Reader Int16 := do
  let v ← decodeUint16 buf
  return v.toInt16

def decodeUint32 (buf : Bytes) : Reader UInt32 := do
  alignOffset 4
  checkBounds buf 4
  let first ← peek buf 0
  let second ← peek buf 1
  let third ← peek buf 2
  let fourth ← peek buf 3
  advance 4
  return (first.toUInt32 <<< 24) ||| (second.toUInt32 <<< 16) ||| (third.toUInt32 <<< 8) |||
    fourth.toUInt32

def decodeInt32 (buf : Bytes) : Reader Int32 := do
  let v ← decodeUint32 buf
  return v.toInt32

def decodeUint64 (buf : Bytes) : Reader UInt64 := do
  alignOffset 8
  checkBounds buf 8
  let bytes ← peekMany buf 8
  advance 8
  return Words.fold64 bytes

def decodeInt64 (buf : Bytes) : Reader Int64 := do
  let v ← decodeUint64 buf
  return v.toInt64

def decodeFloat (buf : Bytes) : Reader UInt32 := decodeUint32 buf

def decodeDouble (buf : Bytes) : Reader UInt64 := decodeUint64 buf

def decodeString (buf : Bytes) : Reader Bytes := do
  let len ← decodeUint32 buf
  if len = 0 then return []
  else
    checkBounds buf len.toUInt64
    let s ← peekMany buf (len.toNat - 1)
    advance len.toUInt64
    return s

def liftExcept {α : Type} (result : Except Exc α) : Reader α := fun s =>
  match result with
  | .ok a => .ok a s
  | .error e => .error e s

def decodeUuid (buf : Bytes) : Reader UUID := do
  let text ← decodeString buf
  liftExcept (UUID.fromString text)

def decodeBytes (buf : Bytes) : Reader Bytes := do
  let len ← decodeUint32 buf
  checkBounds buf len.toUInt64
  let v ← peekMany buf len.toNat
  advance len.toUInt64
  return v

def decodeOptionalFlag (buf : Bytes) : Reader Bool := decodeBool buf

def decodeSequenceLength (buf : Bytes) : Reader UInt32 := decodeUint32 buf

def decode (buf : Bytes) : (t : CxxType) → Reader t.Value
  | .bool => decodeBool buf
  | .int8 => decodeInt8 buf
  | .uint8 => decodeUint8 buf
  | .int16 => decodeInt16 buf
  | .uint16 => decodeUint16 buf
  | .int32 => decodeInt32 buf
  | .uint32 => decodeUint32 buf
  | .int64 => decodeInt64 buf
  | .uint64 => decodeUint64 buf
  | .float => decodeFloat buf
  | .double => decodeDouble buf
  | .string => decodeString buf
  | .bytes => decodeBytes buf
  | .uuid => decodeUuid buf

section Handlers

open Guarded

variable {σ : Type}

def chooseAnd (generated : Bool) (ordinal : UInt32) (inner : Decode Exc σ Unit) :
    Decode Exc (ChoiceSlot σ) Unit :=
  markAnd generated (fun slot => { slot with ordinal })
    (onPart ChoiceSlot.store (fun slot store => { slot with store }) inner)

def enableAnd (generated : Bool) (inner : Decode Exc σ Unit) : Decode Exc (OptSlot σ) Unit :=
  markAnd generated (fun slot => { slot with has := true })
    (onPart OptSlot.value (fun slot value => { slot with value }) inner)

def pushItem {maxOccurs : Option Nat} (fresh : σ) (copy : σ → σ) (inner : Decode Exc σ Unit) :
    Decode Exc (AccessorList maxOccurs σ) Unit := do
  let item ← onNew fresh inner
  modifyOrThrow fun list => list.pushBack (copy item)

def decodeList {maxOccurs : Option Nat} (buf : Bytes) (fresh : σ) (copy : σ → σ)
    (inner : Decode Exc σ Unit) : Decode Exc (AccessorList maxOccurs σ) Unit := do
  let count ← position (decodeSequenceLength buf)
  assign .clear
  times (pushItem fresh copy inner) count.toNat

def decodeChoice (buf : Bytes) (selected : Nat → Option Bool) (inner : Nat → Decode Exc σ Unit) :
    Decode Exc (ChoiceSlot σ) Unit := do
  let ordinal ← position (decodeUint32 buf)
  match selected ordinal.toNat with
  | none => pure ()
  | some generated => chooseAnd generated ordinal (inner ordinal.toNat)

def decodeOptional (buf : Bytes) (generated : Bool) (inner : Decode Exc σ Unit) :
    Decode Exc (OptSlot σ) Unit := do
  let present ← position (decodeOptionalFlag buf)
  if present then enableAnd generated inner else pure ()

mutual
def Elem.deserializeAt (buf : Bytes) : (e : Elem) → Decode Exc e.Impl Unit
  | .prim t => do
      let v ← position (decode buf t)
      assign v
  | .enum _ _ => do
      let v ← position (decodeUint32 buf)
      assign v
  | .cls _ body => Members.deserializeAt buf body

def Members.deserializeAt (buf : Bytes) : (ms : Members) → Decode Exc ms.Impl Unit
  | .nil => pure ()
  | .base _ body rest => do
      onFst (Members.deserializeAt buf body)
      onSnd (Members.deserializeAt buf rest)
  | .choice variants rest => do
      onFst (decodeChoice buf (Variants.selected variants · 1)
        fun ordinal => Variants.deserializeAt buf variants ordinal 1)
      onSnd (Members.deserializeAt buf rest)
  | .required _ elem rest => do
      onFst (Elem.deserializeAt buf elem)
      onSnd (Members.deserializeAt buf rest)
  | .optional _ elem rest => do
      onFst (decodeOptional buf (Elem.isGenerated elem) (Elem.deserializeAt buf elem))
      onSnd (Members.deserializeAt buf rest)
  | .list _ _ elem rest => do
      onFst (decodeList buf elem.fresh (elem.copy elem.fresh) (Elem.deserializeAt buf elem))
      onSnd (Members.deserializeAt buf rest)

def Variants.deserializeAt (buf : Bytes) : (vs : Variants) → (ordinal index : Nat) →
    Decode Exc vs.Impl Unit
  | .nil, _, _ => pure ()
  | .cons _ elem rest, ordinal, index =>
      if ordinal = index then onFst (Elem.deserializeAt buf elem)
      else onSnd (Variants.deserializeAt buf rest ordinal (index + 1))
end

end Handlers

section Helpers

variable {buf : Bytes} {pre post : Nat → Prop} {α β : Type}

/-- The offset is not beyond the end. -/
def Inside (buf : Bytes) (off : Nat) : Prop := off ≤ buf.length

/-- So many bytes follow the offset. -/
def Room (buf : Bytes) (needed off : Nat) : Prop := off + needed ≤ buf.length

/-- The decode helper is the one of the model and keeps the offset inside. -/
abbrev Helper (buf : Bytes) (pre post : Nat → Prop) (m : Reader α) (m' : Cdr.Reader α) : Prop :=
  Refines buf.length id Spot.place pre post m m'

variable (short : buf.length < 2 ^ 63)
include short

/-- An offset inside is aligned without wrapping; it may come to lie beyond the end. -/
theorem alignOffset_helper {alignment : UInt64} (small : alignment.toNat ≤ 8) :
    Helper buf (Inside buf) (fun off => off ≤ buf.length + 8) (alignOffset alignment)
      (Cdr.alignOffset alignment.toNat) := by
  refine Refines.moveTo (g := fun off => if alignment.toNat > 1 ∧ off % alignment.toNat ≠ 0 then
    off + (alignment.toNat - off % alignment.toNat) else off) ?_ ?_
  · intro off inside
    have within : off.toNat ≤ buf.length := inside
    have wide : alignment > 1 ↔ alignment.toNat > 1 := UInt64.lt_iff_toNat_lt
    have unaligned : off % alignment ≠ 0 ↔ off.toNat % alignment.toNat ≠ 0 := by
      rw [ne_eq, ← UInt64.toNat_inj, UInt64.toNat_mod]
      rfl
    simp only [wide, unaligned]
    split_ifs with skip
    · have rest := Nat.mod_lt off.toNat (show 0 < alignment.toNat by omega)
      have least : off % alignment ≤ alignment := by
        rw [UInt64.le_iff_toNat_le, UInt64.toNat_mod]
        exact Nat.le_of_lt rest
      rw [UInt64.toNat_add, UInt64.toNat_sub_of_le _ _ least, UInt64.toNat_mod]
      exact Nat.mod_eq_of_lt (by omega)
    · rfl
  · intro off inside
    have within : off ≤ buf.length := inside
    split_ifs with skip
    · have rest := Nat.mod_lt off (show 0 < alignment.toNat by omega)
      omega
    · omega

theorem size_toNat : (size buf).toNat = buf.length := by
  rw [size, UInt64.toNat_ofNat']
  exact Nat.mod_eq_of_lt (by omega)

/-- The check sees an offset slightly beyond the end, and the sum does not wrap. -/
theorem checkBounds_helper (needed : UInt64) (small : needed.toNat < 2 ^ 32) :
    Helper buf (fun off => off ≤ buf.length + 8) (Room buf needed.toNat) (checkBounds buf needed)
      (Cdr.checkBounds buf needed.toNat) := by
  intro s sound near
  have within : s.off.toNat ≤ buf.length + 8 := near
  have sum : (s.off + needed).toNat = s.off.toNat + needed.toNat := by
    rw [UInt64.toNat_add]
    exact Nat.mod_eq_of_lt (by omega)
  have beyond : s.off + needed > size buf ↔ s.off.toNat + needed.toNat > buf.length := by
    rw [gt_iff_lt, UInt64.lt_iff_toNat_lt, sum, size_toNat short]
  by_cases tooFar : s.off.toNat + needed.toNat > buf.length
  · simp only [checkBounds, Cdr.checkBounds, Spot.place, id, beyond, tooFar, if_true]
    exact ⟨trivial, Goes.refl sound⟩
  · simp only [checkBounds, Cdr.checkBounds, Spot.place, id, beyond, tooFar, if_false]
    exact ⟨trivial, Goes.refl sound, Nat.le_of_not_lt tooFar⟩

theorem advance_helper (needed : UInt64) :
    Helper buf (Room buf needed.toNat) (Inside buf) (advance needed)
      fun off => .ok () (off + needed.toNat) := by
  refine Refines.moveTo ?_ ?_
  · intro off room
    exact toNat_add_inside short room
  · intro off room
    exact ⟨Nat.le_add_right _ _, room⟩

theorem framed_helper (alignment needed : UInt64) {body : Reader α} {value : Nat → α}
    (small : alignment.toNat ≤ 8) (few : needed.toNat < 2 ^ 32)
    (reads : Helper buf (Room buf needed.toNat) (Room buf needed.toNat) body (look value)) :
    Helper buf (Inside buf) (Inside buf)
      (do alignOffset alignment
          checkBounds buf needed
          let v ← body
          advance needed
          return v)
      (do Cdr.alignOffset alignment.toNat
          Cdr.checkBounds buf needed.toNat
          Cdr.consume needed.toNat value) := by
  refine Refines.bind (alignOffset_helper short small) fun _ =>
    Refines.bind (checkBounds_helper short needed few) fun _ => ?_
  have whole := Refines.bind reads fun v =>
    Refines.bind (advance_helper short needed) fun _ => Refines.pure v
  exact whole

theorem single_helper {body : Reader α} {value : Nat → α}
    (reads : Helper buf (Room buf 1) (Room buf 1) body (look value)) :
    Helper buf (Inside buf) (Inside buf)
      (do checkBounds buf 1
          let v ← body
          advance 1
          return v)
      (do Cdr.checkBounds buf 1
          Cdr.consume 1 value) := by
  have near : ∀ off, Inside buf off → off ≤ buf.length + 8 := fun off inside =>
    Nat.le_trans inside (Nat.le_add_right _ _)
  have check := Refines.weaken (checkBounds_helper short 1 (by decide)) near
    fun _ room => room
  have whole := Refines.bind check fun _ => Refines.bind reads fun v =>
    Refines.bind (advance_helper short 1) fun _ => Refines.pure v
  exact whole

theorem decodeUint8_helper :
    Helper buf (Inside buf) (Inside buf) (decodeUint8 buf) (Cdr.decodeUint8 buf) :=
  single_helper short (Refines.peek short 1 0 (by decide))

theorem decodeBool_helper :
    Helper buf (Inside buf) (Inside buf) (decodeBool buf) (Cdr.decodeBool buf) := by
  have reads := Refines.bind (ε := Exc) (Refines.peek short 1 0 (by decide))
    fun byte => Refines.pure (byte != 0)
  exact single_helper short reads

theorem decodeUint16_helper :
    Helper buf (Inside buf) (Inside buf) (decodeUint16 buf) (Cdr.decodeUint16 buf) := by
  have reads := Refines.bind (ε := Exc) (Refines.peek short 2 0 (by decide)) fun high =>
    Refines.bind (Refines.peek short 2 1 (by decide)) fun low =>
      Refines.pure ((high.toUInt16 <<< 8) ||| low.toUInt16)
  exact framed_helper short 2 2 (by decide) (by decide) reads

theorem decodeUint32_helper :
    Helper buf (Inside buf) (Inside buf) (decodeUint32 buf) (Cdr.decodeUint32 buf) := by
  have reads := Refines.bind (ε := Exc) (Refines.peek short 4 0 (by decide))
    fun first => Refines.bind (Refines.peek short 4 1 (by decide))
      fun second => Refines.bind (Refines.peek short 4 2 (by decide))
        fun third => Refines.bind (Refines.peek short 4 3 (by decide))
          fun fourth => Refines.pure ((first.toUInt32 <<< 24) ||| (second.toUInt32 <<< 16) |||
            (third.toUInt32 <<< 8) ||| fourth.toUInt32)
  exact framed_helper short 4 4 (by decide) (by decide) reads

omit short in
theorem eight_bytes {off : Nat} (room : Room buf 8 off) :
    (List.range 8).map (fun i => byteAt buf (off + i)) = (buf.drop off).take 8 := by
  have inside : off + 8 ≤ buf.length := room
  refine List.ext_getElem ?_ fun k small _ => ?_
  · rw [List.length_map, List.length_range, List.length_take, List.length_drop]
    omega
  · rw [List.length_map, List.length_range] at small
    rw [List.getElem_map, List.getElem_range, List.getElem_take, List.getElem_drop, byteAt,
      List.getD_eq_getElem]

theorem decodeUint64_helper :
    Helper buf (Inside buf) (Inside buf) (decodeUint64 buf) (Cdr.decodeUint64 buf) := by
  have eight : Helper buf (Room buf 8) (Room buf 8) (peekMany buf 8)
      (look fun off => (List.range 8).map fun i => byteAt buf (off + i)) := by
    intro s sound room
    have run := Refines.peekMany (ε := Exc) short (Nat.le_refl 8) s sound room
    have same : (List.range 8).map (fun i => byteAt buf (s.off.toNat + i)) =
        (buf.drop s.off.toNat).take 8 := eight_bytes room
    simpa only [look, Spot.place, id, Room, same] using run
  have reads := Refines.bind eight fun bytes => Refines.pure (Words.fold64 bytes)
  exact framed_helper short 8 8 (by decide) (by decide) reads

omit short in
theorem map_helper {m : Reader α} {m' : Cdr.Reader α} (f : α → β)
    (refines : Helper buf pre post m m') :
    Helper buf pre post (do let v ← m; return f v) (do let v ← m'; return f v) :=
  Refines.bind refines fun v => Refines.pure (f v)

theorem block_helper {len : UInt32} {count : Nat} (few : count ≤ len.toNat) :
    Helper buf (Inside buf) (Inside buf)
      (do checkBounds buf len.toUInt64
          let bytes ← peekMany buf count
          advance len.toUInt64
          return bytes)
      (do Cdr.checkBounds buf len.toNat
          Cdr.consume len.toNat fun off => (buf.drop off).take count) := by
  have near : ∀ off, Inside buf off → off ≤ buf.length + 8 := fun off inside =>
    Nat.le_trans inside (Nat.le_add_right _ _)
  have wide : len.toUInt64.toNat = len.toNat := UInt32.toNat_toUInt64 len
  have small : len.toUInt64.toNat < 2 ^ 32 := wide ▸ len.toNat_lt
  have check := Refines.weaken (checkBounds_helper short len.toUInt64 small) near fun _ room => room
  have block : Helper buf (Room buf len.toUInt64.toNat) (Room buf len.toUInt64.toNat)
      (peekMany buf count) (look fun off => (buf.drop off).take count) :=
    Refines.peekMany short (wide.symm ▸ few)
  have whole := Refines.bind check fun _ => Refines.bind block fun v =>
    Refines.bind (advance_helper short len.toUInt64) fun _ => Refines.pure v
  rw [wide] at whole
  exact whole

theorem decodeString_helper :
    Helper buf (Inside buf) (Inside buf) (decodeString buf) (Cdr.decodeString buf) :=
  Refines.bind (decodeUint32_helper short) fun _ =>
    Refines.ite (fun _ => Refines.pure []) fun _ => block_helper short (Nat.sub_le _ _)

omit short in
theorem liftExcept_helper (result : Except Exc α) :
    Helper buf pre pre (liftExcept result) (Cdr.liftExcept result) := by
  cases result with
  | ok a => exact Refines.pure a
  | error e => exact Refines.throw e

theorem decodeUuid_helper :
    Helper buf (Inside buf) (Inside buf) (decodeUuid buf) (Cdr.decodeUuid buf) :=
  Refines.bind (decodeString_helper short) fun text => liftExcept_helper (UUID.fromString text)

theorem decodeBytes_helper :
    Helper buf (Inside buf) (Inside buf) (decodeBytes buf) (Cdr.decodeBytes buf) :=
  Refines.bind (decodeUint32_helper short) fun _ => block_helper short (Nat.le_refl _)

theorem decode_helper (t : CxxType) :
    Helper buf (Inside buf) (Inside buf) (decode buf t) (Cdr.decode buf t) := by
  cases t with
  | bool => exact decodeBool_helper short
  | int8 => exact map_helper UInt8.toInt8 (decodeUint8_helper short)
  | uint8 => exact decodeUint8_helper short
  | int16 => exact map_helper UInt16.toInt16 (decodeUint16_helper short)
  | uint16 => exact decodeUint16_helper short
  | int32 => exact map_helper UInt32.toInt32 (decodeUint32_helper short)
  | uint32 => exact decodeUint32_helper short
  | int64 => exact map_helper UInt64.toInt64 (decodeUint64_helper short)
  | uint64 => exact decodeUint64_helper short
  | float => exact decodeUint32_helper short
  | double => exact decodeUint64_helper short
  | string => exact decodeString_helper short
  | bytes => exact decodeBytes_helper short
  | uuid => exact decodeUuid_helper short

end Helpers

section Handling

variable {buf : Bytes} {σ τ : Type}

/-- The handler is the one of the model and keeps the offset inside. -/
abbrev Handler (buf : Bytes) (m : Guarded.Decode Exc σ Unit) (m' : InPlace.Decode Exc σ Unit) :
    Prop :=
  RefinesOn buf.length (Inside buf) (Inside buf) m m'

theorem Handler.both {first : Guarded.Decode Exc σ Unit} {first' : InPlace.Decode Exc σ Unit}
    {rest : Guarded.Decode Exc τ Unit} {rest' : InPlace.Decode Exc τ Unit}
    (head : Handler buf first first') (tail : Handler buf rest rest') :
    Handler buf (do Guarded.onFst first; Guarded.onSnd rest)
      (do InPlace.onFst first'; InPlace.onSnd rest') :=
  Refines.bind (Refines.onPart head) fun _ => Refines.onPart tail

theorem chooseAnd_handler {generated : Bool} {ordinal : UInt32} {inner : Guarded.Decode Exc σ Unit}
    {inner' : InPlace.Decode Exc σ Unit} (inside : Handler buf inner inner') :
    Handler buf (chooseAnd generated ordinal inner) (Cdr.chooseAnd generated ordinal inner') :=
  Refines.markAnd (Refines.onPart inside)

theorem enableAnd_handler {generated : Bool} {inner : Guarded.Decode Exc σ Unit}
    {inner' : InPlace.Decode Exc σ Unit} (inside : Handler buf inner inner') :
    Handler buf (enableAnd generated inner) (Cdr.enableAnd generated inner') :=
  Refines.markAnd (Refines.onPart inside)

theorem pushItem_handler {maxOccurs : Option Nat} {fresh : σ} {copy : σ → σ}
    {inner : Guarded.Decode Exc σ Unit} {inner' : InPlace.Decode Exc σ Unit}
    (inside : Handler buf inner inner') :
    Handler buf (pushItem fresh copy inner : Guarded.Decode Exc (AccessorList maxOccurs σ) Unit)
      (Cdr.pushItem fresh copy inner') :=
  Refines.bind (Refines.onNew inside) fun _ => Refines.modifyOrThrow _

variable (short : buf.length < 2 ^ 63)
include short

/-- The count is taken as it comes: each item is checked for itself. -/
theorem decodeList_handler {maxOccurs : Option Nat} {fresh : σ} {copy : σ → σ}
    {inner : Guarded.Decode Exc σ Unit} {inner' : InPlace.Decode Exc σ Unit}
    (inside : Handler buf inner inner') :
    Handler buf
      (decodeList buf fresh copy inner : Guarded.Decode Exc (AccessorList maxOccurs σ) Unit)
      (Cdr.decodeList buf fresh copy inner') :=
  Refines.bind (Refines.position (decodeUint32_helper short)) fun count =>
    Refines.bind (Refines.assign _) fun _ =>
      Refines.times (pushItem_handler inside) count.toNat

theorem decodeChoice_handler {selected : Nat → Option Bool}
    {inner : Nat → Guarded.Decode Exc σ Unit} {inner' : Nat → InPlace.Decode Exc σ Unit}
    (inside : ∀ ordinal, Handler buf (inner ordinal) (inner' ordinal)) :
    Handler buf (decodeChoice buf selected inner) (Cdr.decodeChoice buf selected inner') := by
  refine Refines.bind (Refines.position (decodeUint32_helper short)) fun ordinal => ?_
  cases selected ordinal.toNat with
  | none => exact Refines.pure ()
  | some generated => exact chooseAnd_handler (inside ordinal.toNat)

theorem decodeOptional_handler {generated : Bool} {inner : Guarded.Decode Exc σ Unit}
    {inner' : InPlace.Decode Exc σ Unit} (inside : Handler buf inner inner') :
    Handler buf (decodeOptional buf generated inner) (Cdr.decodeOptional buf generated inner') :=
  Refines.bind (Refines.position (decodeBool_helper short)) fun _ =>
    Refines.ite (fun _ => enableAnd_handler inside) fun _ => Refines.pure ()

end Handling

mutual
theorem Elem.deserializeAt_handler {buf : Bytes} (short : buf.length < 2 ^ 63) :
    (e : Elem) →
    Handler buf (Elem.deserializeAt buf e) (Cdr.Elem.deserializeAt buf e)
  | .prim t => by
      simp only [Elem.deserializeAt, Cdr.Elem.deserializeAt]
      exact Refines.bind (Refines.position (decode_helper short t)) fun v => Refines.assign v
  | .enum _ _ => by
      simp only [Elem.deserializeAt, Cdr.Elem.deserializeAt]
      exact Refines.bind (Refines.position (decodeUint32_helper short)) fun v => Refines.assign v
  | .cls _ body => by
      simp only [Elem.deserializeAt, Cdr.Elem.deserializeAt]
      exact Members.deserializeAt_handler short body

theorem Members.deserializeAt_handler {buf : Bytes} (short : buf.length < 2 ^ 63) :
    (ms : Members) →
    Handler buf (Members.deserializeAt buf ms) (Cdr.Members.deserializeAt buf ms)
  | .nil => by
      simp only [Members.deserializeAt, Cdr.Members.deserializeAt]
      exact Refines.pure ()
  | .base _ body rest => by
      simp only [Members.deserializeAt, Cdr.Members.deserializeAt]
      exact Handler.both (Members.deserializeAt_handler short body)
        (Members.deserializeAt_handler short rest)
  | .choice variants rest => by
      simp only [Members.deserializeAt, Cdr.Members.deserializeAt]
      exact Handler.both
        (decodeChoice_handler short fun ordinal =>
          Variants.deserializeAt_handler short variants ordinal 1)
        (Members.deserializeAt_handler short rest)
  | .required _ elem rest => by
      simp only [Members.deserializeAt, Cdr.Members.deserializeAt]
      exact Handler.both (Elem.deserializeAt_handler short elem)
        (Members.deserializeAt_handler short rest)
  | .optional _ elem rest => by
      simp only [Members.deserializeAt, Cdr.Members.deserializeAt]
      exact Handler.both (decodeOptional_handler short (Elem.deserializeAt_handler short elem))
        (Members.deserializeAt_handler short rest)
  | .list _ _ elem rest => by
      simp only [Members.deserializeAt, Cdr.Members.deserializeAt]
      exact Handler.both (decodeList_handler short (Elem.deserializeAt_handler short elem))
        (Members.deserializeAt_handler short rest)

theorem Variants.deserializeAt_handler {buf : Bytes} (short : buf.length < 2 ^ 63) :
    (vs : Variants) → (ordinal index : Nat) →
    Handler buf (Variants.deserializeAt buf vs ordinal index)
      (Cdr.Variants.deserializeAt buf vs ordinal index)
  | .nil, _, _ => by
      simp only [Variants.deserializeAt, Cdr.Variants.deserializeAt]
      exact Refines.pure ()
  | .cons _ elem rest, ordinal, index => by
      simp only [Variants.deserializeAt, Cdr.Variants.deserializeAt]
      exact Refines.ite (fun _ => Refines.onPart (Elem.deserializeAt_handler short elem))
        fun _ => Refines.onPart (Variants.deserializeAt_handler short rest ordinal (index + 1))
end

def startAt {σ : Type} (off : UInt64) (obj : σ) : Place σ := ⟨⟨off, [], []⟩, obj⟩

/-- What is asked of the reads and of the offset, from where the handler was called to where
it stands. -/
structure WithinBuffer (buf : Bytes) (off : UInt64) (s : Spot) : Prop where
  reads : ∀ index ∈ s.reads, index.toNat < buf.length
  forward : s.trail.Pairwise fun later earlier => earlier.toNat ≤ later.toNat
  called : [off] <:+ s.trail

theorem WithinBuffer.of_goes {buf : Bytes} {off : UInt64} {s : Spot}
    (goes : Goes buf.length ⟨off, [], []⟩ s) : WithinBuffer buf off s :=
  ⟨goes.sound.inside, goes.sound.forward, goes.trail⟩

theorem startAt_sound (size : Nat) (off : UInt64) : Spot.Sound size ⟨off, [], []⟩ where
  inside := fun _ member => absurd member List.not_mem_nil
  forward := List.pairwise_singleton _ _

end Machine

/-- On a buffer of any content shorter than 2^63 and from any offset not beyond its end, a
generated decoder comes to an end, reads inside the buffer only and never goes back; where it
returns it is not beyond the end either. What it does is what the decoder with an unbounded
offset does. -/
theorem deserializeAt_within_buffer {schema : SchemaModel} (wf : WellFormed schema)
    (typeName : String) {m : TypeModel} (found : schema.find typeName = some m)
    (classy : m.isSimpleRestriction = false) :
    ∃ e, layout schema typeName = some e ∧
      ∀ (buf : Bytes) (off : UInt64) (obj : e.Impl), buf.length < 2 ^ 63 →
        off.toNat ≤ buf.length →
        match Machine.Elem.deserializeAt buf e (Machine.startAt off obj) with
        | .ok _ stop => Elem.deserializeAt buf e ⟨off.toNat, obj⟩ = .ok () stop.cursor ∧
            Machine.WithinBuffer buf off stop.spot ∧ stop.spot.off.toNat ≤ buf.length
        | .error error stop => Elem.deserializeAt buf e ⟨off.toNat, obj⟩ =
            .error error stop.cursor ∧ Machine.WithinBuffer buf off stop.spot := by
  rcases exists_layout wf found classy with ⟨e, laidOut⟩
  refine ⟨e, laidOut, ?_⟩
  intro buf off obj short inside
  have run := Machine.Elem.deserializeAt_handler short e (Machine.startAt off obj)
    (Machine.startAt_sound _ off) inside
  cases result : Machine.Elem.deserializeAt buf e (Machine.startAt off obj) with
  | ok _ stop =>
      simp only [result] at run
      exact ⟨run.1, Machine.WithinBuffer.of_goes run.2.1, run.2.2⟩
  | error error stop =>
      simp only [result] at run
      exact ⟨run.1, Machine.WithinBuffer.of_goes run.2⟩

/-- A header whose id claims 2^32 - 1 bytes in a buffer of four is refused after its length. -/
theorem deserializeAt_within_buffer_header :
    ∃ error stop, Machine.Elem.deserializeAt [255, 255, 255, 255] headerLayout
        (Machine.startAt 0 headerLayout.fresh) = .error error stop ∧
      stop.spot.reads = [3, 2, 1, 0] ∧ Machine.WithinBuffer [255, 255, 255, 255] 0 stop.spot := by
  obtain ⟨e, laidOut, inside⟩ := deserializeAt_within_buffer sampleSchema_wellFormed "HeaderType"
    rfl rfl
  have same : headerLayout = e := Option.some.inj (layout_header.symm.trans laidOut)
  subst same
  have run := inside [255, 255, 255, 255] 0 headerLayout.fresh (by decide) (by decide)
  have stops : Machine.Elem.deserializeAt [255, 255, 255, 255] headerLayout
      (Machine.startAt 0 headerLayout.fresh) = .error (underrun [255, 255, 255, 255] 4 4294967295)
        ⟨⟨4, [0, 0], [3, 2, 1, 0]⟩, headerLayout.fresh⟩ := by rfl
  rw [stops] at run
  exact ⟨_, _, stops, rfl, run.2⟩

end Arcal.Cdr
