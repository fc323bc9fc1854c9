import Arcal.Json.Primitives
import Mathlib.Data.List.DropRight

/-! The text functions of the LA-CAL bridge: trimming, fields, tokens and patterns, and the
payload of `INFO`. -/

namespace Arcal.Lacal

open JsonText (Value)

def isWs (c : UInt8) : Bool := c == 0x20 || c == 0x09 || c == 0x0d || c == 0x0a

def trim (s : Bytes) : Bytes := (s.dropWhile isWs).rdropWhile isWs

def space : UInt8 := 0x20

/-- The operation of a line and the `rest` behind it; a blank line has none. -/
def firstField (line : Bytes) : Option (Bytes × Bytes) :=
  let s := trim line
  if s = [] then none
  else if space ∈ s then
    some (s.takeWhile (· ≠ space), trim (s.dropWhile (· ≠ space)).tail)
  else some (s, [])

/-- `in >> field` until the stream ends; it skips whatever `std::isspace` counts. -/
def splitFields (s : Bytes) : List Bytes :=
  (s.splitOnP UUID.isSpace).filter (· ≠ [])

def isAlnum (c : UInt8) : Bool :=
  (0x30 ≤ c && c ≤ 0x39) || (0x41 ≤ c && c ≤ 0x5a) || (0x61 ≤ c && c ≤ 0x7a)

def tokenChar (c : UInt8) : Bool := isAlnum c || c == 0x5f || c == 0x2d || c == 0x2e

def validToken (s : Bytes) : Bool := s != [] && s.all tokenChar

def questionMark : UInt8 := 0x3f
def asterisk : UInt8 := 0x2a

/-- The loop of `globMatch`: `p` and `t` are the places in the pattern and in the text,
`star` is the last asterisk and `matched` the place in the text it reaches up to. -/
def globLoop (pattern text : Bytes) (p t : Nat) (star : Option Nat) (matched : Nat)
    (behind : matched ≤ t) : Bool :=
  if t < text.length then
    if p < pattern.length ∧ (pattern[p]? = some questionMark ∨ pattern[p]? = text[t]?) then
      globLoop pattern text (p + 1) (t + 1) star matched (Nat.le_succ_of_le behind)
    else if p < pattern.length ∧ pattern[p]? = some asterisk then
      globLoop pattern text (p + 1) t (some p) t (Nat.le_refl t)
    else
      match star with
      | some place =>
          globLoop pattern text (place + 1) (matched + 1) star (matched + 1) (Nat.le_refl _)
      | none => false
  else (pattern.drop p).all (· == asterisk)
  -- an asterisk that is found or that takes in more text only moves `matched` on
termination_by (text.length - matched, (text.length - t) + (pattern.length - p))
decreasing_by
  · simp only [Prod.lex_def, true_and]
    omega
  · simp only [Prod.lex_def]
    omega
  · simp only [Prod.lex_def]
    omega

def globMatch (pattern text : Bytes) : Bool := globLoop pattern text 0 0 none 0 (Nat.le_refl 0)

/-- The parts that `std::getline` reads; behind a last comma there is none. -/
def headerParts (value : Bytes) : List Bytes :=
  let parts := value.splitOn JsonText.comma
  if parts.getLast? = some [] then parts.dropLast else parts

def headerContainsToken (value token : Bytes) : Bool :=
  (headerParts value).any fun part => trim part = token

/-- The members in the order `std::map` keeps them; `dump` refuses a string that is not
UTF-8. -/
def makeInfoJson (serviceId : Bytes) (port : UInt16) : Except Exc Bytes :=
  if Utf8.Valid serviceId then
    .ok (JsonText.render (.object [
      (utf8 "connect_urls", .array [.string (utf8 "ws://127.0.0.1:" ++ decimal port.toNat)]),
      (utf8 "extensions", .array [.string (utf8 "arcal.xsub.v1")]),
      (utf8 "server_id", .string (utf8 "arlacal-server")),
      (utf8 "service_id", .string serviceId),
      (utf8 "system_label", .string (utf8 "arcal")),
      (utf8 "uuids", .object [
        (utf8 "service", .string (utf8 "00000000-0000-0000-0000-000000000000")),
        (utf8 "system", .string (utf8 "00000000-0000-0000-0000-000000000000"))]),
      (utf8 "version", .string (utf8 "1.0"))]))
  else .error (.jsonException (utf8 "[json.exception.type_error.316] invalid UTF-8 byte"))

end Arcal.Lacal
