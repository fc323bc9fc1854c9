import Mathlib.Algebra.Order.Ring.Int
import Arcal.Accessor.Enum
import Arcal.Lib.JsonString

/-! `JsonPrimitives.h` and `JsonParse.h`: how single values are written, and how they are
taken out of a parsed document. -/

namespace Arcal.Json

open Schema

/-- A comma unless the member is the first, then `"key":`. -/
def emitKey (name : Bytes) (out : Bytes) (first : Bool) : Bytes × Bool :=
  let out := if first then out else out ++ utf8 ","
  (out ++ utf8 "\"" ++ name ++ utf8 "\":", false)

/-- The cases of the `switch`; `\u%04x` takes the other control characters. -/
def emitByte (c : UInt8) : Bytes :=
  if c = 0x22 then utf8 "\\\""
  else if c = 0x5c then utf8 "\\\\"
  else if c = 0x08 then utf8 "\\b"
  else if c = 0x0c then utf8 "\\f"
  else if c = 0x0a then utf8 "\\n"
  else if c = 0x0d then utf8 "\\r"
  else if c = 0x09 then utf8 "\\t"
  else if c < 0x20 then utf8 "\\u00" ++ Hex.pair c
  else [c]

def emitString (s : Bytes) (out : Bytes) : Bytes :=
  s.foldl (fun out c => out ++ emitByte c) (out ++ utf8 "\"") ++ utf8 "\""

def signedDecimal (i : Int) : Bytes :=
  if i < 0 then utf8 "-" ++ decimal i.natAbs else decimal i.natAbs

/-- A number as the parser stores it: non-negative integers unsigned, negative ones signed,
what fits neither as a double. -/
inductive Number
  | unsigned (n : UInt64)
  | integer (i : Int64)
  | floating (bits : UInt64)
  deriving DecidableEq, Repr

/-- The C library's conversions of floating-point numbers: `%g` and `%.17g`, `strtod` (which
has no result when the number is too large) and the casts of a stored number. -/
structure Floating where
  printFloat : UInt32 → Bytes
  printDouble : UInt64 → Bytes
  strtod : Bytes → Option UInt64
  toFloat : Number → UInt32
  toDouble : Number → UInt64

variable (fp : Floating)

def emitValue : (t : CxxType) → t.Value → Bytes → Bytes
  | .bool, v, out => out ++ if v then utf8 "true" else utf8 "false"
  | .int8, v, out => out ++ signedDecimal (Int8.toInt v)
  | .uint8, v, out => out ++ decimal (UInt8.toNat v)
  | .int16, v, out => out ++ signedDecimal (Int16.toInt v)
  | .uint16, v, out => out ++ decimal (UInt16.toNat v)
  | .int32, v, out => out ++ signedDecimal (Int32.toInt v)
  | .uint32, v, out => out ++ decimal (UInt32.toNat v)
  | .int64, v, out => out ++ signedDecimal (Int64.toInt v)
  | .uint64, v, out => out ++ decimal (UInt64.toNat v)
  | .float, v, out => out ++ fp.printFloat v
  | .double, v, out => out ++ fp.printDouble v
  | .string, v, out => emitString v out
  | .uuid, v, out => emitString (UUID.toString v) out
  | .bytes, v, out =>
      List.foldl (fun out b => out ++ Hex.pair b) (out ++ utf8 "\"") v ++ utf8 "\""

def stored (literal : Bytes) : Option Number :=
  let digits := JsonText.magnitude literal
  let n := Decimal.value digits
  let negative := literal.head? = some JsonText.minus
  if digits.all Decimal.isDigit ∧ negative ∧ n ≤ 2 ^ 63 then some (.integer (Int64.ofInt (-n)))
  else if digits.all Decimal.isDigit ∧ ¬ negative ∧ n < 2 ^ 64 then
    some (.unsigned (UInt64.ofNat n))
  else (fp.strtod literal).map Number.floating

def representable (literal : Bytes) : Bool := (stored fp literal).isSome

def complaint (text : String) (context : Bytes) : Exc :=
  .uciException (utf8 "JsonExternalizer::read: " ++ utf8 text ++ context)

def requireObject (value : JsonText.Value) (context : Bytes) :
    Except Exc (List (Bytes × JsonText.Value)) :=
  match value with
  | .object members => .ok members
  | _ => .error (complaint "expected object for " context)

/-- Of several members of one name the last one counts. -/
def find (members : List (Bytes × JsonText.Value)) (name : Bytes) : Option JsonText.Value :=
  (members.reverse.find? fun member => member.1 == name).map Prod.snd

def requireMember (object : JsonText.Value) (name context : Bytes) :
    Except Exc JsonText.Value := do
  let members ← requireObject object context
  match find members name with
  | some value => .ok value
  | none => .error (complaint "missing required field " (context ++ utf8 "." ++ name))

def optionalMember (object : JsonText.Value) (name context : Bytes) :
    Except Exc (Option JsonText.Value) := do
  let members ← requireObject object context
  return find members name

def requireArray (value : JsonText.Value) (context : Bytes) :
    Except Exc (List JsonText.Value) :=
  match value with
  | .array items => .ok items
  | _ => .error (complaint "expected array for " context)

def number (value : JsonText.Value) : Option Number :=
  match value with
  | .number literal => stored fp literal
  | _ => none

def nibblePairs : Bytes → Option Bytes
  | hi :: lo :: rest => do
      let high ← Hex.value hi
      let low ← Hex.value lo
      let others ← nibblePairs rest
      return UInt8.ofNat (high * 16 + low) :: others
  | _ => some []

def parseHexBytes (value : JsonText.Value) (context : Bytes) : Except Exc Bytes :=
  match value with
  | .string text =>
      if text.length % 2 ≠ 0 then .error (complaint "odd-length hex string for " context)
      else
        match nibblePairs text with
        | some bytes => .ok bytes
        | none => .error (complaint "invalid hex string for " context)
  | _ => .error (complaint "expected hex string for " context)

/-- `get<int64_t>()` of a number stored unsigned is taken modulo 2^64. -/
def getInt64 : Number → Option Int64
  | .unsigned n => some n.toInt64
  | .integer i => some i
  | .floating _ => none

def parseSigned (least greatest : Int) (value : JsonText.Value) (context : Bytes) :
    Except Exc Int64 :=
  match (number fp value).bind getInt64 with
  | none => .error (complaint "expected signed integer for " context)
  | some parsed =>
      if parsed.toInt < least ∨ greatest < parsed.toInt then
        .error (complaint "integer out of range for " context)
      else .ok parsed

def parseUnsigned (greatest : Nat) (value : JsonText.Value) (context : Bytes) :
    Except Exc UInt64 := do
  let parsed ← match number fp value with
    | some (.unsigned n) => .ok n
    | some (.integer i) =>
        if i < 0 then .error (complaint "negative unsigned integer for " context)
        else .ok i.toUInt64
    | _ => .error (complaint "expected unsigned integer for " context)
  if greatest < parsed.toNat then
    .error (complaint "unsigned integer out of range for " context)
  else .ok parsed

def parseFloating {α : Type} (get : Number → α) (value : JsonText.Value) (context : Bytes) :
    Except Exc α :=
  match number fp value with
  | some n => .ok (get n)
  | none => .error (complaint "expected number for " context)

def parseValue : (t : CxxType) → JsonText.Value → Bytes → Except Exc t.Value
  | .bool, value, context =>
      match value with
      | .bool b => .ok b
      | _ => .error (complaint "expected boolean for " context)
  | .string, value, context =>
      match value with
      | .string text => .ok text
      | _ => .error (complaint "expected string for " context)
  | .uuid, value, context =>
      match value with
      | .string text => UUID.fromString text
      | _ => .error (complaint "expected UUID string for " context)
  | .bytes, value, context => parseHexBytes value context
  | .int8, value, context => do
      let parsed ← parseSigned fp (-2 ^ 7) (2 ^ 7 - 1) value context
      return parsed.toInt8
  | .int16, value, context => do
      let parsed ← parseSigned fp (-2 ^ 15) (2 ^ 15 - 1) value context
      return parsed.toInt16
  | .int32, value, context => do
      let parsed ← parseSigned fp (-2 ^ 31) (2 ^ 31 - 1) value context
      return parsed.toInt32
  | .int64, value, context => parseSigned fp (-2 ^ 63) (2 ^ 63 - 1) value context
  | .uint8, value, context => do
      let parsed ← parseUnsigned fp (2 ^ 8 - 1) value context
      return parsed.toUInt8
  | .uint16, value, context => do
      let parsed ← parseUnsigned fp (2 ^ 16 - 1) value context
      return parsed.toUInt16
  | .uint32, value, context => do
      let parsed ← parseUnsigned fp (2 ^ 32 - 1) value context
      return parsed.toUInt32
  | .uint64, value, context => parseUnsigned fp (2 ^ 64 - 1) value context
  | .float, value, context => parseFloating fp fp.toFloat value context
  | .double, value, context => parseFloating fp fp.toDouble value context

open JsonText (Value render)

theorem emitByte_eq (c : UInt8) : emitByte c = JsonText.escapeByte c := by
  have all : ∀ k : Fin 256, emitByte (UInt8.ofNat k) = JsonText.escapeByte (UInt8.ofNat k) := by
    decide +kernel
  have here := all ⟨c.toNat, c.toNat_lt⟩
  rw [UInt8.ofNat_toNat] at here
  exact here

theorem emitString_eq (s out : Bytes) : emitString s out = out ++ JsonText.quote s := by
  have same : emitByte = JsonText.escapeByte := funext emitByte_eq
  have mark : utf8 "\"" = [JsonText.quotationMark] := by decide
  rw [emitString, List.foldl_append_eq_append, ← List.flatMap_def, same, mark, JsonText.quote]
  simp

/-- Whatever its bytes are, a string only adds one literal that stands for exactly them. -/
theorem strings_quoted :
    (∀ s out : Bytes, ∃ literal, emitString s out = out ++ literal ∧ JsonText.Quotes literal s) ∧
    (∀ (v : CxxType.string.Value) (out : Bytes), ∃ literal,
      emitValue fp .string v out = out ++ literal ∧ JsonText.Quotes literal v) ∧
    ∀ (v : CxxType.uuid.Value) (out : Bytes), ∃ literal,
      emitValue fp .uuid v out = out ++ literal ∧ JsonText.Quotes literal (UUID.toString v) := by
  refine ⟨?_, ?_, ?_⟩
  · intro s out
    exact ⟨_, emitString_eq s out, JsonText.quotes_quote s⟩
  · intro v out
    exact ⟨_, emitString_eq v out, JsonText.quotes_quote v⟩
  · intro v out
    exact ⟨_, emitString_eq _ out, JsonText.quotes_quote _⟩

theorem decimal_eq (n : Nat) : decimal n = Decimal.digits n := by
  rw [decimal, utf8, Decimal.digits, Utf8.encode, Nat.toString_eq_ofList_toDigits,
    String.toList_ofList]

theorem magnitude_signedDecimal (i : Int) :
    JsonText.magnitude (signedDecimal i) = Decimal.digits i.natAbs := by
  have sign : utf8 "-" = [JsonText.minus] := by decide
  unfold signedDecimal
  rw [decimal_eq]
  split
  · rw [sign, List.singleton_append, JsonText.magnitude_minus]
  · exact JsonText.magnitude_digits _

def tree : (t : CxxType) → t.Value → Value
  | .bool, v => .bool v
  | .int8, v => .number (signedDecimal (Int8.toInt v))
  | .uint8, v => .number (decimal (UInt8.toNat v))
  | .int16, v => .number (signedDecimal (Int16.toInt v))
  | .uint16, v => .number (decimal (UInt16.toNat v))
  | .int32, v => .number (signedDecimal (Int32.toInt v))
  | .uint32, v => .number (decimal (UInt32.toNat v))
  | .int64, v => .number (signedDecimal (Int64.toInt v))
  | .uint64, v => .number (decimal (UInt64.toNat v))
  | .float, v => .number (fp.printFloat v)
  | .double, v => .number (fp.printDouble v)
  | .string, v => .string v
  | .uuid, v => .string (UUID.toString v)
  | .bytes, v => .string (List.flatMap Hex.pair v)

theorem escapeByte_digit (n : Nat) (small : n < 16) :
    JsonText.escapeByte (Hex.digit n) = [Hex.digit n] := by
  have all : ∀ k : Fin 16, JsonText.escapeByte (Hex.digit k) = [Hex.digit k] := by decide
  exact all ⟨n, small⟩

theorem flatMap_escapeByte_pairs (v : Bytes) :
    (v.flatMap Hex.pair).flatMap JsonText.escapeByte = v.flatMap Hex.pair := by
  induction v with
  | nil => rfl
  | cons b rest ih =>
      have high := escapeByte_digit _ (Hex.digit_small_high b)
      have low := escapeByte_digit _ (Hex.digit_small_low b)
      rw [List.flatMap_cons, List.flatMap_append, ih]
      simp [Hex.pair, high, low]

theorem emitValue_eq (t : CxxType) (v : t.Value) (out : Bytes) :
    emitValue fp t v out = out ++ render (tree fp t v) := by
  have yes : utf8 "true" = JsonText.trueText := by decide
  have no : utf8 "false" = JsonText.falseText := by decide
  have mark : utf8 "\"" = [JsonText.quotationMark] := by decide
  cases t with
  | bool => simp only [emitValue, tree, render, yes, no]
  | string => simp only [emitValue, tree, render, emitString_eq]
  | uuid => simp only [emitValue, tree, render, emitString_eq]
  | bytes =>
      simp only [emitValue, tree, render, List.foldl_append_eq_append, ← List.flatMap_def, mark,
        JsonText.quote, flatMap_escapeByte_pairs]
      simp
  | int8 => simp only [emitValue, tree, render]
  | uint8 => simp only [emitValue, tree, render]
  | int16 => simp only [emitValue, tree, render]
  | uint16 => simp only [emitValue, tree, render]
  | int32 => simp only [emitValue, tree, render]
  | uint32 => simp only [emitValue, tree, render]
  | int64 => simp only [emitValue, tree, render]
  | uint64 => simp only [emitValue, tree, render]
  | float => simp only [emitValue, tree, render]
  | double => simp only [emitValue, tree, render]

theorem digits_all (n : Nat) : (Decimal.digits n).all Decimal.isDigit = true :=
  List.all_eq_true.mpr fun _ => Decimal.isDigit_of_mem_digits

theorem head_digits (n : Nat) : (Decimal.digits n).head? ≠ some JsonText.minus := by
  intro sign
  have digit := Decimal.isDigit_of_mem_digits (List.mem_of_mem_head? sign)
  rw [JsonText.minus_not_digit] at digit
  cases digit

theorem stored_decimal {n : Nat} (fits : n < 2 ^ 64) :
    stored fp (decimal n) = some (.unsigned (UInt64.ofNat n)) := by
  have plain := head_digits n
  simp only [stored, decimal_eq, JsonText.magnitude_digits, digits_all, Decimal.value_digits,
    plain, fits, true_and, false_and, and_self, not_false_eq_true, if_true, if_false]

theorem stored_negative {n : Nat} (fits : n ≤ 2 ^ 63) :
    stored fp (JsonText.minus :: Decimal.digits n) = some (.integer (Int64.ofInt (-n))) := by
  simp only [stored, JsonText.magnitude_minus, digits_all, Decimal.value_digits, fits,
    List.head?_cons, and_self, if_true]

theorem number_signedDecimal {i : Int} (above : -2 ^ 63 ≤ i) (below : i < 2 ^ 63) :
    (number fp (.number (signedDecimal i))).bind getInt64 = some (Int64.ofInt i) := by
  have sign : utf8 "-" = [JsonText.minus] := by decide
  simp only [number, signedDecimal]
  split
  · next negative =>
    rw [sign, decimal_eq, List.singleton_append]
    simp only [stored_negative fp (by omega : i.natAbs ≤ 2 ^ 63), Option.bind_some, getInt64]
    congr 2
    omega
  · next natural =>
    simp only [stored_decimal fp (by omega : i.natAbs < 2 ^ 64), Option.bind_some, getInt64,
      UInt64.toInt64_ofNat']
    have same : (i.natAbs : Int) = i := by omega
    rw [← Int64.ofInt_eq_ofNat, same]

theorem parseSigned_signedDecimal {least greatest i : Int} (context : Bytes)
    (above : least ≤ i) (below : i ≤ greatest) (least_le : -2 ^ 63 ≤ least)
    (lt_greatest : greatest < 2 ^ 63) :
    parseSigned fp least greatest (.number (signedDecimal i)) context = .ok (Int64.ofInt i) := by
  have whole : (Int64.ofInt i).toInt = i := Int64.toInt_ofInt_of_le (by omega) (by omega)
  have inside : ¬ (i < least ∨ greatest < i) := by omega
  simp only [parseSigned, number_signedDecimal fp (by omega : -2 ^ 63 ≤ i) (by omega : i < 2 ^ 63),
    whole, if_neg inside]

theorem parseUnsigned_decimal {greatest n : Nat} (context : Bytes) (below : n ≤ greatest)
    (lt_greatest : greatest < 2 ^ 64) :
    parseUnsigned fp greatest (.number (decimal n)) context = .ok (UInt64.ofNat n) := by
  have small : n < 2 ^ 64 := by omega
  have whole : (UInt64.ofNat n).toNat = n := by
    rw [UInt64.toNat_ofNat', Nat.mod_eq_of_lt small]
  have inside : ¬ greatest < n := by omega
  simp only [parseUnsigned, number, stored_decimal fp small, bind, Except.bind, whole,
    if_neg inside]

theorem nibblePairs_pairs (v : Bytes) : nibblePairs (v.flatMap Hex.pair) = some v := by
  induction v with
  | nil => rfl
  | cons b rest ih =>
      have high := Hex.value_high b
      have low := Hex.value_low b
      have whole := Hex.halves b
      rw [List.flatMap_cons, Hex.pair, List.cons_append, List.cons_append, List.nil_append,
        nibblePairs, high, low, ih]
      simp only [Option.bind_eq_bind, Option.bind_some, Option.pure_def, whole]

theorem length_pairs (v : Bytes) : (v.flatMap Hex.pair).length % 2 = 0 := by
  induction v with
  | nil => rfl
  | cons b rest ih =>
      rw [List.flatMap_cons, List.length_append, Hex.pair_length]
      omega

def Exact (t : CxxType) : Prop := t ≠ .float ∧ t ≠ .double

theorem parseValue_tree {t : CxxType} (exact : Exact t) (v : t.Value) (context : Bytes) :
    parseValue fp t (tree fp t v) context = .ok v := by
  cases t with
  | bool => rfl
  | string => rfl
  | uuid => exact UUID.fromString_toString v
  | bytes =>
      have even : ¬ (List.flatMap Hex.pair v).length % 2 ≠ 0 := not_not.mpr (length_pairs v)
      simp only [parseValue, tree, parseHexBytes, if_neg even, nibblePairs_pairs]
  | int8 =>
      have parsed := parseSigned_signedDecimal fp context (Int8.le_toInt v)
        (Int.le_sub_one_of_lt (Int8.toInt_lt v)) (by decide) (by decide)
      simp only [parseValue, tree, parsed, bind, Except.bind, pure, Except.pure,
        Int64.toInt8_ofInt, Int8.ofInt_toInt]
  | int16 =>
      have parsed := parseSigned_signedDecimal fp context (Int16.le_toInt v)
        (Int.le_sub_one_of_lt (Int16.toInt_lt v)) (by decide) (by decide)
      simp only [parseValue, tree, parsed, bind, Except.bind, pure, Except.pure,
        Int64.toInt16_ofInt, Int16.ofInt_toInt]
  | int32 =>
      have parsed := parseSigned_signedDecimal fp context (Int32.le_toInt v)
        (Int.le_sub_one_of_lt (Int32.toInt_lt v)) (by decide) (by decide)
      simp only [parseValue, tree, parsed, bind, Except.bind, pure, Except.pure,
        Int64.toInt32_ofInt, Int32.ofInt_toInt]
  | int64 =>
      have parsed := parseSigned_signedDecimal fp context (Int64.le_toInt v)
        (Int.le_sub_one_of_lt (Int64.toInt_lt v)) (by decide) (by decide)
      simp only [parseValue, tree, parsed, Int64.ofInt_toInt]
  | uint8 =>
      have parsed := parseUnsigned_decimal fp context (Nat.le_sub_one_of_lt (UInt8.toNat_lt v))
        (by decide)
      simp only [parseValue, tree, parsed, bind, Except.bind, pure, Except.pure]
      simp
  | uint16 =>
      have parsed := parseUnsigned_decimal fp context (Nat.le_sub_one_of_lt (UInt16.toNat_lt v))
        (by decide)
      simp only [parseValue, tree, parsed, bind, Except.bind, pure, Except.pure]
      simp
  | uint32 =>
      have parsed := parseUnsigned_decimal fp context (Nat.le_sub_one_of_lt (UInt32.toNat_lt v))
        (by decide)
      simp only [parseValue, tree, parsed, bind, Except.bind, pure, Except.pure]
      simp
  | uint64 =>
      have parsed := parseUnsigned_decimal fp context (Nat.le_sub_one_of_lt (UInt64.toNat_lt v))
        (by decide)
      simp only [parseValue, tree, parsed, UInt64.ofNat_toNat]
  | float => exact absurd rfl exact.1
  | double => exact absurd rfl exact.2

theorem representable_signedDecimal {i : Int} (above : -2 ^ 63 ≤ i) (below : i < 2 ^ 63) :
    representable fp (signedDecimal i) = true := by
  have sign : utf8 "-" = [JsonText.minus] := by decide
  unfold representable signedDecimal
  split
  · rw [sign, decimal_eq, List.singleton_append,
      stored_negative fp (by omega : i.natAbs ≤ 2 ^ 63)]
    rfl
  · rw [stored_decimal fp (by omega : i.natAbs < 2 ^ 64)]
    rfl

theorem sound_signedDecimal {i : Int} (above : -2 ^ 63 ≤ i) (below : i < 2 ^ 63) :
    (Value.number (signedDecimal i)).Sound (representable fp) := by
  simp only [JsonText.Value.Sound]
  exact ⟨JsonText.isNumber_of_magnitude (magnitude_signedDecimal i),
    representable_signedDecimal fp above below⟩

theorem sound_decimal {n : Nat} (fits : n < 2 ^ 64) :
    (Value.number (decimal n)).Sound (representable fp) := by
  have same : decimal n = signedDecimal n := by
    have natural : ¬ (n : Int) < 0 := by omega
    rw [signedDecimal, if_neg natural, Int.natAbs_natCast]
  have known : representable fp (decimal n) = true := by
    rw [representable, stored_decimal fp fits]
    rfl
  simp only [JsonText.Value.Sound]
  refine ⟨?_, known⟩
  rw [same]
  exact JsonText.isNumber_of_magnitude (magnitude_signedDecimal n)

theorem tree_sound {t : CxxType} (exact' : Exact t) (v : t.Value) :
    (tree fp t v).Sound (representable fp) := by
  cases t with
  | bool => trivial
  | string => trivial
  | uuid => trivial
  | bytes => trivial
  | int8 =>
      have above := Int8.le_toInt v
      have below := Int8.toInt_lt v
      exact sound_signedDecimal fp (by omega) (by omega)
  | int16 =>
      have above := Int16.le_toInt v
      have below := Int16.toInt_lt v
      exact sound_signedDecimal fp (by omega) (by omega)
  | int32 =>
      have above := Int32.le_toInt v
      have below := Int32.toInt_lt v
      exact sound_signedDecimal fp (by omega) (by omega)
  | int64 => exact sound_signedDecimal fp (Int64.le_toInt v) (Int64.toInt_lt v)
  | uint8 => exact sound_decimal fp (Nat.lt_trans (UInt8.toNat_lt v) (by decide))
  | uint16 => exact sound_decimal fp (Nat.lt_trans (UInt16.toNat_lt v) (by decide))
  | uint32 => exact sound_decimal fp (Nat.lt_trans (UInt32.toNat_lt v) (by decide))
  | uint64 => exact sound_decimal fp (UInt64.toNat_lt v)
  | float => exact absurd rfl exact'.1
  | double => exact absurd rfl exact'.2

/-- A string must be valid UTF-8; the other types take any value. -/
def Encodable : (t : CxxType) → t.Value → Prop
  | .string, v => Utf8.Valid v
  | _, _ => True

theorem pair_ascii {b c : UInt8} (member : c ∈ Hex.pair b) : c < 0x80 := by
  have all : ∀ k : Fin 16, Hex.digit k < 0x80 := by decide
  simp only [Hex.pair, List.mem_cons, List.not_mem_nil, or_false] at member
  rcases member with high | low
  · rw [high]
    exact all ⟨_, Hex.digit_small_high b⟩
  · rw [low]
    exact all ⟨_, Hex.digit_small_low b⟩

theorem uuid_ascii (uuid : UUID) : ∀ c ∈ UUID.toString uuid, c < 0x80 := by
  intro c member
  rw [UUID.toString, List.mem_flatMap] at member
  rcases member with ⟨⟨octet, i⟩, _, inside⟩
  rcases List.mem_append.mp inside with mark | digit
  · split at mark
    · rw [List.mem_singleton] at mark
      rw [mark]
      decide
    · cases mark
  · exact pair_ascii digit

theorem tree_encoded {t : CxxType} {v : t.Value} (encodable : Encodable t v) :
    (tree fp t v).Encoded := by
  cases t with
  | string => simpa only [tree, JsonText.Value.Encoded, Encodable] using encodable
  | uuid =>
      simp only [tree, JsonText.Value.Encoded]
      exact Utf8.valid_ascii (uuid_ascii v)
  | bytes =>
      simp only [tree, JsonText.Value.Encoded]
      apply Utf8.valid_ascii
      intro c member
      rcases List.mem_flatMap.mp member with ⟨b, _, digit⟩
      exact pair_ascii digit
  | bool => trivial
  | int8 => trivial
  | uint8 => trivial
  | int16 => trivial
  | uint16 => trivial
  | int32 => trivial
  | uint32 => trivial
  | int64 => trivial
  | uint64 => trivial
  | float => trivial
  | double => trivial

end Arcal.Json
