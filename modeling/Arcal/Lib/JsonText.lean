import Arcal.Lib.Decimal
import Arcal.Lib.Hex

/-! JSON text as a grammar over bytes: `parse` reads it, `render` writes a value without
blanks. -/

namespace JsonText

/-- A parsed text: a number is its literal, a string the bytes it stands for, and an
object its members in the order they come. -/
inductive Value
  | null
  | bool (b : Bool)
  | number (literal : List UInt8)
  | string (text : List UInt8)
  | array (items : List Value)
  | object (members : List (List UInt8 × Value))

def quotationMark : UInt8 := 0x22
def reverseSolidus : UInt8 := 0x5c
def comma : UInt8 := 0x2c
def colon : UInt8 := 0x3a
def beginArray : UInt8 := 0x5b
def endArray : UInt8 := 0x5d
def beginObject : UInt8 := 0x7b
def endObject : UInt8 := 0x7d
def minus : UInt8 := 0x2d
def decimalPoint : UInt8 := 0x2e

def nullText : List UInt8 := [0x6e, 0x75, 0x6c, 0x6c]
def trueText : List UInt8 := [0x74, 0x72, 0x75, 0x65]
def falseText : List UInt8 := [0x66, 0x61, 0x6c, 0x73, 0x65]

def isSpace (c : UInt8) : Bool := c == 0x20 || c == 0x09 || c == 0x0a || c == 0x0d

def skip (text : List UInt8) : List UInt8 := text.dropWhile isSpace

def isNumberByte (c : UInt8) : Bool :=
  Decimal.isDigit c || c == minus || c == 0x2b || c == decimalPoint || c == 0x65 || c == 0x45

def isExponent : List UInt8 → Bool
  | [] => true
  | e :: rest =>
      let digits := if rest.head? = some minus ∨ rest.head? = some 0x2b then rest.tail else rest
      (e == 0x65 || e == 0x45) && digits != [] && digits.all Decimal.isDigit

/-- Nothing, a fraction, an exponent, or a fraction and an exponent. -/
def isFraction (text : List UInt8) : Bool :=
  if text.head? = some decimalPoint then
    text.tail.takeWhile Decimal.isDigit != [] &&
      isExponent (text.tail.dropWhile Decimal.isDigit)
  else isExponent text

def magnitude (literal : List UInt8) : List UInt8 :=
  if literal.head? = some minus then literal.tail else literal

def isNumber (literal : List UInt8) : Bool :=
  let whole := (magnitude literal).takeWhile Decimal.isDigit
  (whole == [0x30] || (whole != [] && whole.head? != some 0x30)) &&
    isFraction ((magnitude literal).dropWhile Decimal.isDigit)

def unescape (c : UInt8) : Option UInt8 :=
  if c = quotationMark ∨ c = reverseSolidus ∨ c = 0x2f then some c
  else if c = 0x62 then some 0x08
  else if c = 0x66 then some 0x0c
  else if c = 0x6e then some 0x0a
  else if c = 0x72 then some 0x0d
  else if c = 0x74 then some 0x09
  else none

def hex4 : List UInt8 → Option (Nat × List UInt8)
  | first :: second :: third :: fourth :: rest => do
      let a ← Hex.value first
      let b ← Hex.value second
      let c ← Hex.value third
      let d ← Hex.value fourth
      return (((a * 16 + b) * 16 + c) * 16 + d, rest)
  | _ => none

def lowSurrogate : List UInt8 → Option (Nat × List UInt8)
  | first :: second :: rest =>
      if first = reverseSolidus ∧ second = 0x75 then
        (hex4 rest).filter fun unit => 0xdc00 ≤ unit.1 ∧ unit.1 < 0xe000
      else none
  | _ => none

/-- A character given by its code, or by two when it is beyond the basic plane. -/
def unicode (text : List UInt8) : Option (List UInt8 × List UInt8) := do
  let (unit, rest) ← hex4 text
  if 0xd800 ≤ unit ∧ unit < 0xdc00 then do
    let (low, rest) ← lowSurrogate rest
    let code := 0x10000 + (unit - 0xd800) * 0x400 + (low - 0xdc00)
    return (String.utf8EncodeChar (Char.ofNat code), rest)
  else if 0xdc00 ≤ unit ∧ unit < 0xe000 then none
  else return (String.utf8EncodeChar (Char.ofNat unit), rest)

def escaped : List UInt8 → Option (List UInt8 × List UInt8)
  | [] => none
  | c :: rest =>
      if c = 0x75 then unicode rest else (unescape c).map fun byte => ([byte], rest)

/-- A string behind its opening quotation mark, and the text that follows it. -/
def scanString : Nat → List UInt8 → Option (List UInt8 × List UInt8)
  | 0, _ => none
  | _ + 1, [] => none
  | fuel + 1, c :: rest =>
      if c = quotationMark then some ([], rest)
      else if c = reverseSolidus then
        (escaped rest).bind fun piece =>
          (scanString fuel piece.2).map fun more => (piece.1 ++ more.1, more.2)
      else if c < 0x20 then none
      else (scanString fuel rest).map fun more => (c :: more.1, more.2)

/-- `representable` is the implementation's limit on numbers. -/
def scanNumber (representable : List UInt8 → Bool) (text : List UInt8) :
    Option (Value × List UInt8) :=
  let literal := text.takeWhile isNumberByte
  if isNumber literal && representable literal then
    some (.number literal, text.dropWhile isNumberByte)
  else none

mutual
def parseValue (representable : List UInt8 → Bool) : Nat → List UInt8 →
    Option (Value × List UInt8)
  | 0, _ => none
  | fuel + 1, text =>
      match skip text with
      | [] => none
      | c :: rest =>
          if c = quotationMark then
            (scanString (rest.length + 1) rest).map fun found => (.string found.1, found.2)
          else if c = beginArray then
            if (skip rest).head? = some endArray then some (.array [], (skip rest).tail)
            else (parseItems representable fuel rest).map fun found => (.array found.1, found.2)
          else if c = beginObject then
            if (skip rest).head? = some endObject then some (.object [], (skip rest).tail)
            else (parseMembers representable fuel rest).map fun found => (.object found.1, found.2)
          else if nullText.isPrefixOf (c :: rest) then some (.null, (c :: rest).drop 4)
          else if trueText.isPrefixOf (c :: rest) then some (.bool true, (c :: rest).drop 4)
          else if falseText.isPrefixOf (c :: rest) then some (.bool false, (c :: rest).drop 5)
          else scanNumber representable (c :: rest)

def parseItems (representable : List UInt8 → Bool) : Nat → List UInt8 →
    Option (List Value × List UInt8)
  | 0, _ => none
  | fuel + 1, text =>
      (parseValue representable fuel text).bind fun item =>
        match skip item.2 with
        | [] => none
        | c :: rest =>
            if c = comma then
              (parseItems representable fuel rest).map fun more => (item.1 :: more.1, more.2)
            else if c = endArray then some ([item.1], rest)
            else none

def parseMembers (representable : List UInt8 → Bool) : Nat → List UInt8 →
    Option (List (List UInt8 × Value) × List UInt8)
  | 0, _ => none
  | fuel + 1, text =>
      match skip text with
      | [] => none
      | mark :: named =>
          if mark = quotationMark then
            (scanString (named.length + 1) named).bind fun key =>
              match skip key.2 with
              | [] => none
              | separator :: valued =>
                  if separator = colon then
                    (parseValue representable fuel valued).bind fun value =>
                      match skip value.2 with
                      | [] => none
                      | c :: rest =>
                          if c = comma then
                            (parseMembers representable fuel rest).map fun more =>
                              ((key.1, value.1) :: more.1, more.2)
                          else if c = endObject then some ([(key.1, value.1)], rest)
                          else none
                  else none
          else none
end

/-- A text is one value with nothing but blanks around it. -/
def parse (representable : List UInt8 → Bool) (text : List UInt8) : Option Value :=
  if Utf8.Valid text then
    (parseValue representable (2 * text.length + 1) text).bind fun found =>
      if skip found.2 = [] then some found.1 else none
  else none

def shortEscape (c : UInt8) : Option UInt8 :=
  if c = quotationMark ∨ c = reverseSolidus then some c
  else if c = 0x08 then some 0x62
  else if c = 0x0c then some 0x66
  else if c = 0x0a then some 0x6e
  else if c = 0x0d then some 0x72
  else if c = 0x09 then some 0x74
  else none

def escapeByte (c : UInt8) : List UInt8 :=
  match shortEscape c with
  | some letter => [reverseSolidus, letter]
  | none => if c < 0x20 then [reverseSolidus, 0x75, 0x30, 0x30] ++ Hex.pair c else [c]

def quote (text : List UInt8) : List UInt8 :=
  quotationMark :: (text.flatMap escapeByte ++ [quotationMark])

def continued (pieces : List (List UInt8)) : List UInt8 :=
  pieces.flatMap fun piece => comma :: piece

def separated : List (List UInt8) → List UInt8
  | [] => []
  | piece :: rest => piece ++ continued rest

mutual
def render : Value → List UInt8
  | .null => nullText
  | .bool b => if b then trueText else falseText
  | .number literal => literal
  | .string text => quote text
  | .array items => beginArray :: (separated (renderItems items) ++ [endArray])
  | .object members => beginObject :: (separated (renderMembers members) ++ [endObject])

def renderItems : List Value → List (List UInt8)
  | [] => []
  | item :: rest => render item :: renderItems rest

def renderMembers : List (List UInt8 × Value) → List (List UInt8)
  | [] => []
  | (key, value) :: rest => (quote key ++ colon :: render value) :: renderMembers rest
end

mutual
/-- The values whose numbers are literals within the limits. -/
def Value.Sound (representable : List UInt8 → Bool) : Value → Prop
  | .number literal => isNumber literal = true ∧ representable literal = true
  | .array items => SoundItems representable items
  | .object members => SoundMembers representable members
  | _ => True

def SoundItems (representable : List UInt8 → Bool) : List Value → Prop
  | [] => True
  | item :: rest => item.Sound representable ∧ SoundItems representable rest

def SoundMembers (representable : List UInt8 → Bool) : List (List UInt8 × Value) → Prop
  | [] => True
  | member :: rest => member.2.Sound representable ∧ SoundMembers representable rest
end

end JsonText
