import Arcal.Lib.InPlace
import Arcal.Lib.Words
import Arcal.Accessor.Impl

/-! The CDR encode and decode helpers: big-endian values aligned to their natural
size. `encode_*` appends to a buffer, `decode_*` reads from a moving offset. -/

namespace Arcal.Cdr

open Schema InPlace Words

def alignBuffer (buf : Bytes) (alignment : Nat) : Bytes :=
  buf ++ List.replicate (padding alignment buf.length) 0

/-- The source's loop: push a zero while the size is not a multiple. -/
theorem alignBuffer_loop (buf : Bytes) (alignment : Nat) (positive : 0 < alignment) :
    alignBuffer buf alignment =
      if buf.length % alignment ≠ 0 then alignBuffer (buf ++ [0]) alignment else buf := by
  unfold alignBuffer
  split
  · next unaligned =>
    rw [padding_succ alignment buf.length positive unaligned, List.length_append,
      List.length_singleton, List.append_assoc, List.replicate_succ, List.singleton_append]
  · next aligned =>
    rw [(padding_eq_zero_iff alignment buf.length positive).mpr (not_not.mp aligned)]
    simp

def encodeBool (buf : Bytes) (v : Bool) : Bytes := buf ++ [if v then 1 else 0]

def encodeUint8 (buf : Bytes) (v : UInt8) : Bytes := buf ++ [v]

def encodeInt8 (buf : Bytes) (v : Int8) : Bytes := buf ++ [v.toUInt8]

def encodeUint16 (buf : Bytes) (v : UInt16) : Bytes :=
  alignBuffer buf 2 ++ [(v >>> 8).toUInt8, v.toUInt8]

def encodeInt16 (buf : Bytes) (v : Int16) : Bytes := encodeUint16 buf v.toUInt16

def encodeUint32 (buf : Bytes) (v : UInt32) : Bytes :=
  alignBuffer buf 4 ++
    [(v >>> 24).toUInt8, (v >>> 16).toUInt8, (v >>> 8).toUInt8, v.toUInt8]

def encodeInt32 (buf : Bytes) (v : Int32) : Bytes := encodeUint32 buf v.toUInt32

def encodeUint64 (buf : Bytes) (v : UInt64) : Bytes := alignBuffer buf 8 ++ split64 v

def encodeInt64 (buf : Bytes) (v : Int64) : Bytes := encodeUint64 buf v.toUInt64

def encodeFloat (buf : Bytes) (bits : UInt32) : Bytes := encodeUint32 buf bits

def encodeDouble (buf : Bytes) (bits : UInt64) : Bytes := encodeUint64 buf bits

/-- Length with the terminator, bytes, terminator. -/
def encodeString (buf : Bytes) (s : Bytes) : Bytes :=
  encodeUint32 buf (UInt32.ofNat (s.length + 1)) ++ s ++ [0]

def encodeUuid (buf : Bytes) (uuid : UUID) : Bytes := encodeString buf uuid.toString

def encodeBytes (buf : Bytes) (v : Bytes) : Bytes :=
  encodeUint32 buf (UInt32.ofNat v.length) ++ v

def encodeOptionalFlag (buf : Bytes) (present : Bool) : Bytes := encodeBool buf present

def encodeSequenceLength (buf : Bytes) (count : UInt32) : Bytes := encodeUint32 buf count

def encode : (t : CxxType) → Bytes → t.Value → Bytes
  | .bool => encodeBool
  | .int8 => encodeInt8
  | .uint8 => encodeUint8
  | .int16 => encodeInt16
  | .uint16 => encodeUint16
  | .int32 => encodeInt32
  | .uint32 => encodeUint32
  | .int64 => encodeInt64
  | .uint64 => encodeUint64
  | .float => encodeFloat
  | .double => encodeDouble
  | .string => encodeString
  | .bytes => encodeBytes
  | .uuid => encodeUuid

/-- A decode helper: the offset survives a throw. -/
abbrev Reader (α : Type) := EStateM Exc Nat α

def alignOffset (alignment : Nat) : Reader Unit := fun off =>
  .ok () (if alignment > 1 ∧ off % alignment ≠ 0 then off + (alignment - off % alignment) else off)

def underrun (buf : Bytes) (off needed : Nat) : Exc :=
  .uciException (utf8 "CDR decode: buffer underrun at offset " ++ decimal off ++
    utf8 " need " ++ decimal needed ++ utf8 " have " ++ decimal buf.length)

def checkBounds (buf : Bytes) (needed : Nat) : Reader Unit := fun off =>
  if off + needed > buf.length then .error (underrun buf off needed) off else .ok () off

/-- `buf[off]`, which every caller has checked. -/
def byteAt (buf : Bytes) (off : Nat) : UInt8 := buf.getD off 0

def consume {α : Type} (needed : Nat) (value : Nat → α) : Reader α := fun off =>
  .ok (value off) (off + needed)

def decodeUint8 (buf : Bytes) : Reader UInt8 := do
  checkBounds buf 1
  consume 1 fun off => byteAt buf off

def decodeBool (buf : Bytes) : Reader Bool := do
  checkBounds buf 1
  consume 1 fun off => byteAt buf off != 0

def decodeInt8 (buf : Bytes) : Reader Int8 := do
  let v ← decodeUint8 buf
  return v.toInt8

def decodeUint16 (buf : Bytes) : Reader UInt16 := do
  alignOffset 2
  checkBounds buf 2
  consume 2 fun off => ((byteAt buf off).toUInt16 <<< 8) ||| (byteAt buf (off + 1)).toUInt16

def decodeInt16 (buf : Bytes) : Reader Int16 := do
  let v ← decodeUint16 buf
  return v.toInt16

def decodeUint32 (buf : Bytes) : Reader UInt32 := do
  alignOffset 4
  checkBounds buf 4
  consume 4 fun off =>
    ((byteAt buf off).toUInt32 <<< 24) ||| ((byteAt buf (off + 1)).toUInt32 <<< 16) |||
      ((byteAt buf (off + 2)).toUInt32 <<< 8) ||| (byteAt buf (off + 3)).toUInt32

def decodeInt32 (buf : Bytes) : Reader Int32 := do
  let v ← decodeUint32 buf
  return v.toInt32

def decodeUint64 (buf : Bytes) : Reader UInt64 := do
  alignOffset 8
  checkBounds buf 8
  consume 8 fun off => fold64 ((List.range 8).map fun i => byteAt buf (off + i))

def decodeInt64 (buf : Bytes) : Reader Int64 := do
  let v ← decodeUint64 buf
  return v.toInt64

def decodeFloat (buf : Bytes) : Reader UInt32 := decodeUint32 buf

def decodeDouble (buf : Bytes) : Reader UInt64 := decodeUint64 buf

/-- A zero length is an empty string without a terminator. -/
def decodeString (buf : Bytes) : Reader Bytes := do
  let len ← decodeUint32 buf
  if len = 0 then return []
  else
    checkBounds buf len.toNat
    consume len.toNat fun off => (buf.drop off).take (len.toNat - 1)

def liftExcept {α : Type} (result : Except Exc α) : Reader α := fun off =>
  match result with
  | .ok a => .ok a off
  | .error e => .error e off

def decodeUuid (buf : Bytes) : Reader UUID := do
  let text ← decodeString buf
  liftExcept (UUID.fromString text)

def decodeBytes (buf : Bytes) : Reader Bytes := do
  let len ← decodeUint32 buf
  checkBounds buf len.toNat
  consume len.toNat fun off => (buf.drop off).take len.toNat

def decodeOptionalFlag (buf : Bytes) : Reader Bool := decodeBool buf

def decodeSequenceLength (buf : Bytes) : Reader UInt32 := decodeUint32 buf

def decode (buf : Bytes) : (t : CxxType) → Reader t.Value
  | .bool => decodeBool buf
  | .int8 => decodeInt8 buf
  | .uint8 => decodeUint8 buf
  | .int16 => decodeInt16 buf
  | .uint16 => decodeUint16 buf
  | .int32 => decodeInt32 buf
  | .uint32 => decodeUint32 buf
  | .int64 => decodeInt64 buf
  | .uint64 => decodeUint64 buf
  | .float => decodeFloat buf
  | .double => decodeDouble buf
  | .string => decodeString buf
  | .bytes => decodeBytes buf
  | .uuid => decodeUuid buf

theorem alignBuffer_extends (buf : Bytes) (alignment : Nat) : buf <+: alignBuffer buf alignment :=
  List.prefix_append _ _

theorem encodeUint32_extends (buf : Bytes) (v : UInt32) : buf <+: encodeUint32 buf v :=
  (alignBuffer_extends buf 4).trans (List.prefix_append _ _)

theorem encodeString_extends (buf s : Bytes) : buf <+: encodeString buf s :=
  ((encodeUint32_extends buf _).trans (List.prefix_append _ _)).trans (List.prefix_append _ _)

theorem encode_extends (t : CxxType) (buf : Bytes) (v : t.Value) : buf <+: encode t buf v := by
  cases t with
  | bool => exact List.prefix_append _ _
  | int8 => exact List.prefix_append _ _
  | uint8 => exact List.prefix_append _ _
  | int16 => exact (alignBuffer_extends buf 2).trans (List.prefix_append _ _)
  | uint16 => exact (alignBuffer_extends buf 2).trans (List.prefix_append _ _)
  | int32 => exact encodeUint32_extends buf _
  | uint32 => exact encodeUint32_extends buf _
  | int64 => exact (alignBuffer_extends buf 8).trans (List.prefix_append _ _)
  | uint64 => exact (alignBuffer_extends buf 8).trans (List.prefix_append _ _)
  | float => exact encodeUint32_extends buf _
  | double => exact (alignBuffer_extends buf 8).trans (List.prefix_append _ _)
  | string => exact encodeString_extends buf v
  | bytes => exact (encodeUint32_extends buf _).trans (List.prefix_append _ _)
  | uuid => exact encodeString_extends buf _

/-- The 32-bit lengths of the format: a string is counted with its terminator. -/
def Fits : (t : CxxType) → t.Value → Prop
  | .string, s => List.length s + 1 < 2 ^ 32
  | .bytes, v => List.length v < 2 ^ 32
  | _, _ => True

theorem alignBuffer_length (buf : Bytes) (alignment : Nat) :
    (alignBuffer buf alignment).length = buf.length + padding alignment buf.length := by
  simp [alignBuffer]

theorem alignOffset_run (buf : Bytes) {alignment : Nat} (wide : 1 < alignment) :
    alignOffset alignment buf.length = .ok () (alignBuffer buf alignment).length := by
  rw [alignBuffer_length]
  have small := Nat.mod_lt buf.length (by omega : 0 < alignment)
  unfold alignOffset padding
  congr 1
  split
  · next unaligned => rw [Nat.mod_eq_of_lt (a := alignment - buf.length % alignment) (by omega)]
  · next aligned =>
    have zero : buf.length % alignment = 0 := by
      by_contra unaligned
      exact aligned ⟨wide, unaligned⟩
    rw [zero]
    simp

theorem checkBounds_run {buf : Bytes} {off needed : Nat} (room : off + needed ≤ buf.length) :
    checkBounds buf needed off = .ok () off := by
  rw [checkBounds, if_neg (by omega)]

theorem byteAt_of_inside {pre bytes whole : Bytes} (inside : pre ++ bytes <+: whole)
    (k : Nat) (small : k < bytes.length) : byteAt whole (pre.length + k) = bytes[k] := by
  rcases inside with ⟨suffix, rfl⟩
  unfold byteAt
  rw [List.append_assoc, List.getD_append_right _ _ _ _ (by omega), Nat.add_sub_cancel_left,
    List.getD_append _ _ _ _ small, List.getD_eq_getElem _ _ small]

theorem slice_of_inside {pre bytes whole : Bytes} (inside : pre ++ bytes <+: whole) :
    (whole.drop pre.length).take bytes.length = bytes := by
  rcases inside with ⟨suffix, rfl⟩
  rw [List.append_assoc, List.drop_left, List.take_left]

theorem prefix_room {pre bytes whole : Bytes} (inside : pre ++ bytes <+: whole) :
    pre.length + bytes.length ≤ whole.length := by
  have bound := inside.length_le
  rwa [List.length_append] at bound

theorem word_run {α : Type} {buf bytes whole : Bytes} {alignment : Nat} (value : Nat → α)
    (wide : 1 < alignment) (inside : alignBuffer buf alignment ++ bytes <+: whole) :
    (do alignOffset alignment
        checkBounds whole bytes.length
        consume bytes.length value : Reader α) buf.length =
      .ok (value (alignBuffer buf alignment).length)
        (alignBuffer buf alignment ++ bytes).length := by
  rw [bind_ok (alignOffset_run buf wide), bind_ok (checkBounds_run (prefix_room inside)),
    consume, List.length_append]

theorem byte_run {α : Type} {buf whole : Bytes} {byte : UInt8} (value : Nat → α)
    (inside : buf ++ [byte] <+: whole) :
    (do checkBounds whole 1
        consume 1 value : Reader α) buf.length = .ok (value buf.length) (buf ++ [byte]).length := by
  have room : buf.length + 1 ≤ whole.length := prefix_room inside
  rw [bind_ok (checkBounds_run room), consume, List.length_append, List.length_singleton]

theorem byteAt_end {buf whole : Bytes} {byte : UInt8} (inside : buf ++ [byte] <+: whole) :
    byteAt whole buf.length = byte :=
  byteAt_of_inside inside 0 (by simp)

theorem decodeUint8_encode {buf whole : Bytes} {v : UInt8} (inside : encodeUint8 buf v <+: whole) :
    decodeUint8 whole buf.length = .ok v (encodeUint8 buf v).length := by
  refine (byte_run _ inside).trans ?_
  rw [byteAt_end inside]
  rfl

theorem decodeUint16_encode {buf whole : Bytes} {v : UInt16}
    (inside : encodeUint16 buf v <+: whole) :
    decodeUint16 whole buf.length = .ok v (encodeUint16 buf v).length := by
  have first := byteAt_of_inside inside 0 (by simp)
  have second := byteAt_of_inside inside 1 (by simp)
  simp only [Nat.add_zero, List.getElem_cons_zero, List.getElem_cons_succ] at first second
  refine (word_run _ (by decide) inside).trans ?_
  rw [first, second, join16]
  rfl

theorem decodeUint32_encode {buf whole : Bytes} {v : UInt32}
    (inside : encodeUint32 buf v <+: whole) :
    decodeUint32 whole buf.length = .ok v (encodeUint32 buf v).length := by
  have first := byteAt_of_inside inside 0 (by simp)
  have second := byteAt_of_inside inside 1 (by simp)
  have third := byteAt_of_inside inside 2 (by simp)
  have fourth := byteAt_of_inside inside 3 (by simp)
  simp only [Nat.add_zero, List.getElem_cons_zero, List.getElem_cons_succ]
    at first second third fourth
  refine (word_run _ (by decide) inside).trans ?_
  rw [first, second, third, fourth, join32]
  rfl

theorem decodeUint64_encode {buf whole : Bytes} {v : UInt64}
    (inside : encodeUint64 buf v <+: whole) :
    decodeUint64 whole buf.length = .ok v (encodeUint64 buf v).length := by
  have read : (List.range 8).map (fun i => byteAt whole ((alignBuffer buf 8).length + i)) =
      split64 v := by
    apply List.ext_getElem (by simp)
    intro k inRange inWord
    rw [List.getElem_map, List.getElem_range, byteAt_of_inside inside k inWord]
  refine (word_run _ (by decide) inside).trans ?_
  rw [read, fold64_split64]
  rfl

theorem decodeString_encode {buf whole s : Bytes} (short : s.length + 1 < 2 ^ 32)
    (inside : encodeString buf s <+: whole) :
    decodeString whole buf.length = .ok s (encodeString buf s).length := by
  have length : (UInt32.ofNat (s.length + 1)).toNat = s.length + 1 := by
    rw [UInt32.toNat_ofNat']
    exact Nat.mod_eq_of_lt short
  have nonzero : UInt32.ofNat (s.length + 1) ≠ 0 := by
    intro zero
    rw [zero] at length
    simp at length
  have header := decodeUint32_encode (((List.prefix_append _ s).trans
    (List.prefix_append _ [0])).trans inside)
  have framed : (encodeUint32 buf (UInt32.ofNat (s.length + 1))).length + (s.length + 1) ≤
      whole.length := by
    have bound := inside.length_le
    simp only [encodeString, List.length_append, List.length_singleton] at bound
    omega
  have body := slice_of_inside ((List.prefix_append _ [0]).trans inside)
  rw [decodeString, bind_ok header, if_neg nonzero, length,
    bind_ok (checkBounds_run framed), consume, Nat.add_sub_cancel, body]
  simp [encodeString]

theorem decodeUuid_encode {buf whole : Bytes} {uuid : UUID}
    (inside : encodeUuid buf uuid <+: whole) :
    decodeUuid whole buf.length = .ok uuid (encodeUuid buf uuid).length := by
  have short : uuid.toString.length + 1 < 2 ^ 32 := by
    rw [UUID.toString_length]
    decide
  rw [decodeUuid, bind_ok (decodeString_encode short inside), UUID.fromString_toString]
  rfl

theorem decodeBytes_encode {buf whole v : Bytes} (short : v.length < 2 ^ 32)
    (inside : encodeBytes buf v <+: whole) :
    decodeBytes whole buf.length = .ok v (encodeBytes buf v).length := by
  have length : (UInt32.ofNat v.length).toNat = v.length := by
    rw [UInt32.toNat_ofNat']
    exact Nat.mod_eq_of_lt short
  have header := decodeUint32_encode ((List.prefix_append _ v).trans inside)
  have body := slice_of_inside inside
  rw [decodeBytes, bind_ok header, length, bind_ok (checkBounds_run (prefix_room inside)),
    consume, body]
  simp [encodeBytes]

theorem decode_encode (t : CxxType) {buf whole : Bytes} {v : t.Value} (fits : Fits t v)
    (inside : encode t buf v <+: whole) :
    decode whole t buf.length = .ok v (encode t buf v).length := by
  cases t with
  | bool =>
      refine (byte_run _ inside).trans ?_
      rw [byteAt_end inside]
      cases v <;> rfl
  | int8 =>
      change (decodeUint8 whole >>= fun v => pure v.toInt8) buf.length = _
      rw [bind_ok (decodeUint8_encode inside)]
      simp [encode, encodeInt8, encodeUint8]
  | uint8 => exact decodeUint8_encode inside
  | int16 =>
      change (decodeUint16 whole >>= fun v => pure v.toInt16) buf.length = _
      rw [bind_ok (decodeUint16_encode inside)]
      simp [encode, encodeInt16]
  | uint16 => exact decodeUint16_encode inside
  | int32 =>
      change (decodeUint32 whole >>= fun v => pure v.toInt32) buf.length = _
      rw [bind_ok (decodeUint32_encode inside)]
      simp [encode, encodeInt32]
  | uint32 => exact decodeUint32_encode inside
  | int64 =>
      change (decodeUint64 whole >>= fun v => pure v.toInt64) buf.length = _
      rw [bind_ok (decodeUint64_encode inside)]
      simp [encode, encodeInt64]
  | uint64 => exact decodeUint64_encode inside
  | float => exact decodeUint32_encode inside
  | double => exact decodeUint64_encode inside
  | string => exact decodeString_encode fits inside
  | bytes => exact decodeBytes_encode fits inside
  | uuid => exact decodeUuid_encode inside

end Arcal.Cdr
