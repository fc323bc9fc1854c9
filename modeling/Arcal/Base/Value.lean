import Arcal.Lib.Hex
import Arcal.Schema.Model

/-! What the generated code is built from: exceptions, UUIDs and the C++ value types. -/

namespace Arcal

/-- The exceptions that reach the codecs' callers, with their `what()`. `uciException`
and `runtimeError` are the ones a handler for `std::runtime_error` catches. -/
inductive Exc
  | uciException (what : Bytes)
  | runtimeError (what : Bytes)
  | invalidArgument (what : Bytes)
  | outOfRange (what : Bytes)
  | badCast
  | jsonException (what : Bytes)
  deriving DecidableEq, Repr

def Exc.what : Exc → Bytes
  | .uciException what | .runtimeError what | .invalidArgument what
  | .outOfRange what | .jsonException what => what
  | .badCast => utf8 "std::bad_cast"

def Exc.isRuntimeError : Exc → Bool
  | .uciException _ | .runtimeError _ => true
  | _ => false

def decimal (n : Nat) : Bytes := utf8 (toString n)

structure UUID where
  octets : List UInt8
  sixteen : octets.length = 16
  deriving DecidableEq, Repr

namespace UUID

def nil : UUID := ⟨List.replicate 16 0, List.length_replicate⟩

def hyphen : UInt8 := 0x2d

def toString (uuid : UUID) : Bytes :=
  uuid.octets.zipIdx.flatMap fun (octet, i) =>
    (if i = 4 ∨ i = 6 ∨ i = 8 ∨ i = 10 then [hyphen] else []) ++ Hex.pair octet

def isSpace (c : UInt8) : Bool := c == 0x20 || (0x09 ≤ c && c ≤ 0x0d)

/-- `std::stoul(s, nullptr, 16)`: blanks, a sign and `0x` may come first, and what
follows the digits is ignored. -/
def stoul16 (s : Bytes) : Except Exc Nat :=
  let text := s.dropWhile isSpace
  let negative := text.head? = some 0x2d
  let unsigned := if text.head? = some 0x2b ∨ negative then text.tail else text
  let body :=
    if unsigned[0]? = some 0x30 ∧ (unsigned[1]? = some 0x78 ∨ unsigned[1]? = some 0x58) ∧
        (unsigned[2]?.bind Hex.value).isSome then unsigned.drop 2
    else unsigned
  let digits := body.takeWhile fun c => (Hex.value c).isSome
  let value := digits.foldl (fun acc c => acc * 16 + (Hex.value c).getD 0) 0
  if digits = [] then .error (.invalidArgument (utf8 "stoul"))
  else if 2 ^ 64 ≤ value then .error (.outOfRange (utf8 "stoul"))
  else .ok (if negative then (2 ^ 64 - value) % 2 ^ 64 else value)

def parseOctets : Bytes → Except Exc Bytes
  | hi :: lo :: rest => do
      let octet ← stoul16 [hi, lo]
      let others ← parseOctets rest
      return UInt8.ofNat octet :: others
  | _ => .ok []

theorem parseOctets_length {hex octets : Bytes} (run : parseOctets hex = .ok octets) :
    octets.length = hex.length / 2 := by
  fun_induction parseOctets hex generalizing octets with
  | case1 hi lo rest ih =>
      cases first : stoul16 [hi, lo] with
      | error e => simp [first, bind, Except.bind] at run
      | ok octet =>
          cases later : parseOctets rest with
          | error e => simp [first, later, bind, Except.bind] at run
          | ok others =>
              simp only [first, later, bind, Except.bind, pure, Except.pure,
                Except.ok.injEq] at run
              subst run
              rw [List.length_cons, ih later, List.length_cons, List.length_cons]
              omega
  | case2 hex short =>
      injection run with empty
      subst empty
      match hex, short with
      | [], _ => rfl
      | [last], _ => simp
      | hi :: lo :: rest, short => exact absurd rfl (short hi lo rest)

def fromString (str : Bytes) : Except Exc UUID :=
  if str.length ≠ 36 ∨ str[8]? ≠ some hyphen ∨ str[13]? ≠ some hyphen ∨
      str[18]? ≠ some hyphen ∨ str[23]? ≠ some hyphen then
    .error (.uciException (utf8 "UUID::fromString: invalid format: " ++ str))
  else
    let hex := str.filter (· ≠ hyphen)
    if sized : hex.length = 32 then
      match run : parseOctets hex with
      | .ok octets => .ok ⟨octets, by rw [parseOctets_length run, sized]⟩
      | .error e => .error e
    else .error (.uciException (utf8 "UUID::fromString: invalid hex length"))

theorem digit_ne_hyphen (n : Nat) (small : n < 16) : Hex.digit n ≠ hyphen := by
  have all : ∀ k : Fin 16, Hex.digit k ≠ hyphen := by decide
  exact all ⟨n, small⟩

/-- Two written digits are one octet again: neither is taken for a blank or a sign. -/
theorem stoul16_pair (octet : UInt8) : stoul16 (Hex.pair octet) = .ok octet.toNat := by
  have plain : ∀ n : Fin 16, isSpace (Hex.digit n) = false ∧ Hex.digit n ≠ 0x2b ∧
      Hex.digit n ≠ 0x2d := by decide
  rcases plain ⟨_, Hex.digit_small_high octet⟩ with ⟨noBlank, noPlus, noMinus⟩
  have high := Hex.value_high octet
  have low := Hex.value_low octet
  have bound := octet.toNat_lt
  have whole : octet.toNat / 16 * 16 + octet.toNat % 16 = octet.toNat := by omega
  have fits : octet.toNat < 18446744073709551616 := by omega
  simp [stoul16, Hex.pair, noBlank, noPlus, noMinus, high, low, whole, fits]

theorem parseOctets_pairs (octets : Bytes) :
    parseOctets (octets.flatMap Hex.pair) = .ok octets := by
  induction octets with
  | nil => rfl
  | cons octet rest ih =>
      change (do
        let first ← stoul16 (Hex.pair octet)
        let others ← parseOctets (rest.flatMap Hex.pair)
        return UInt8.ofNat first :: others) = _
      rw [stoul16_pair, ih]
      simp [bind, Except.bind, pure, Except.pure]

theorem filter_toString (uuid : UUID) :
    (toString uuid).filter (· ≠ hyphen) = uuid.octets.flatMap Hex.pair := by
  unfold toString
  generalize 0 = start
  induction uuid.octets generalizing start with
  | nil => rfl
  | cons octet rest ih =>
      have high := digit_ne_hyphen _ (Hex.digit_small_high octet)
      have low := digit_ne_hyphen _ (Hex.digit_small_low octet)
      rw [List.zipIdx_cons, List.flatMap_cons, List.filter_append, ih, List.flatMap_cons]
      by_cases mark : start = 4 ∨ start = 6 ∨ start = 8 ∨ start = 10
      · simp [Hex.pair, high, low, mark]
      · simp [Hex.pair, high, low, mark]

theorem toString_shape (uuid : UUID) :
    (toString uuid).length = 36 ∧ (toString uuid)[8]? = some hyphen ∧
      (toString uuid)[13]? = some hyphen ∧ (toString uuid)[18]? = some hyphen ∧
      (toString uuid)[23]? = some hyphen := by
  rcases uuid with ⟨octets, sixteen⟩
  match octets, sixteen with
  | [_, _, _, _, _, _, _, _, _, _, _, _, _, _, _, _], _ =>
      exact ⟨rfl, rfl, rfl, rfl, rfl⟩

theorem toString_length (uuid : UUID) : (toString uuid).length = 36 := (toString_shape uuid).1

theorem fromString_toString (uuid : UUID) : fromString (toString uuid) = .ok uuid := by
  have digits := filter_toString uuid
  have sized : ((toString uuid).filter (· ≠ hyphen)).length = 32 := by
    rw [digits]
    simp [List.length_flatMap, uuid.sixteen]
  have run : parseOctets ((toString uuid).filter (· ≠ hyphen)) = .ok uuid.octets := by
    rw [digits, parseOctets_pairs]
  rcases toString_shape uuid with ⟨total, first, second, third, fourth⟩
  have wellFormed : ¬ ((toString uuid).length ≠ 36 ∨ (toString uuid)[8]? ≠ some hyphen ∨
      (toString uuid)[13]? ≠ some hyphen ∨ (toString uuid)[18]? ≠ some hyphen ∨
      (toString uuid)[23]? ≠ some hyphen) := by
    intro given
    rcases given with bad | bad | bad | bad | bad
    · exact bad total
    · exact bad first
    · exact bad second
    · exact bad third
    · exact bad fourth
  rw [fromString, if_neg wellFormed]
  simp only [dif_pos sized]
  split
  · next octets again =>
    have same : octets = uuid.octets := by
      rw [run] at again
      exact (Except.ok.inj again).symm
    subst same
    rfl
  · next e again => rw [run] at again; cases again

end UUID

namespace Schema

/-- The values of a C++ type; a float is its bit pattern, a string its bytes. -/
@[reducible] def CxxType.Value : CxxType → Type
  | .bool => Bool
  | .int8 => Int8
  | .uint8 => UInt8
  | .int16 => Int16
  | .uint16 => UInt16
  | .int32 => Int32
  | .uint32 => UInt32
  | .int64 => Int64
  | .uint64 => UInt64
  | .float => UInt32
  | .double => UInt64
  | .string => Bytes
  | .bytes => Bytes
  | .uuid => UUID

def CxxType.zero : (t : CxxType) → t.Value
  | .bool => false
  | .int8 => 0
  | .uint8 => 0
  | .int16 => 0
  | .uint16 => 0
  | .int32 => 0
  | .uint32 => 0
  | .int64 => 0
  | .uint64 => 0
  | .float => 0
  | .double => 0
  | .string => []
  | .bytes => []
  | .uuid => UUID.nil

/-- Class types are always constructed; default initialisation leaves the others alone. -/
def CxxType.isClass : CxxType → Bool
  | .string | .bytes | .uuid => true
  | _ => false

end Schema

end Arcal
