import Arcal.Lib.JsonRender

/-! What stands between the quotation marks of a string, byte by byte: the characters and
escapes it is made of, and a scanner that knows whether it is inside an escape. -/

namespace JsonText

/-- A piece of a string and the byte it stands for. A quotation mark or a reverse solidus is
only ever part of an escape. -/
inductive Piece : List UInt8 → UInt8 → Prop
  | plain {c : UInt8} (noQuote : c ≠ quotationMark) (noSolidus : c ≠ reverseSolidus)
      (visible : 0x20 ≤ c) : Piece [c] c
  | short {letter byte : UInt8} (known : unescape letter = some byte) :
      Piece [reverseSolidus, letter] byte
  | code {first second : UInt8} {high low : Nat} (upper : Hex.value first = some high)
      (lower : Hex.value second = some low) :
      Piece [reverseSolidus, 0x75, 0x30, 0x30, first, second] (UInt8.ofNat (high * 16 + low))

inductive StandsFor : List UInt8 → List UInt8 → Prop
  | nil : StandsFor [] []
  | cons {piece body content : List UInt8} {byte : UInt8} (first : Piece piece byte)
      (rest : StandsFor body content) : StandsFor (piece ++ body) (byte :: content)

theorem piece_escapeByte (c : UInt8) : Piece (escapeByte c) c := by
  unfold escapeByte
  split
  · next letter short => exact .short (unescape_shortEscape short).1
  · next plain =>
    split
    · have code := Piece.code (Hex.value_high c) (Hex.value_low c)
      rw [Hex.halves] at code
      exact code
    · next visible =>
      apply Piece.plain
      · intro same
        rw [same, shortEscape_mark.1] at plain
        cases plain
      · intro same
        rw [same, shortEscape_mark.2] at plain
        cases plain
      · exact UInt8.not_lt.mp visible

theorem standsFor_escaped (text : List UInt8) : StandsFor (text.flatMap escapeByte) text := by
  induction text with
  | nil => exact .nil
  | cons c rest ih =>
      rw [List.flatMap_cons]
      exact .cons (piece_escapeByte c) ih

theorem unescape_visible {letter byte : UInt8} (known : unescape letter = some byte) :
    0x20 ≤ letter ∧ letter ≠ 0x75 := by
  unfold unescape at known
  split_ifs at known with mark
  · rcases mark with rfl | rfl | rfl
    · decide
    · decide
    · decide
  all_goals subst letter
  all_goals decide

theorem hexDigit_visible {c : UInt8} {n : Nat} (digit : Hex.value c = some n) : 0x20 ≤ c := by
  unfold Hex.value at digit
  have least : ∀ bound : UInt8, 0x20 ≤ bound → bound ≤ c → 0x20 ≤ c :=
    fun _ => UInt8.le_trans
  split_ifs at digit with decimal lower upper
  · exact least _ (by decide) decimal.1
  · exact least _ (by decide) lower.1
  · exact least _ (by decide) upper.1

theorem Piece.visible {piece : List UInt8} {byte : UInt8} (given : Piece piece byte) :
    ∀ c ∈ piece, 0x20 ≤ c := by
  have solidus : 0x20 ≤ reverseSolidus := by decide
  cases given with
  | plain _ _ visible => simpa using visible
  | short known => simpa using ⟨solidus, (unescape_visible known).1⟩
  | code upper lower =>
      simpa using ⟨solidus, hexDigit_visible upper, hexDigit_visible lower⟩

theorem StandsFor.visible {body content : List UInt8} (given : StandsFor body content) :
    ∀ c ∈ body, 0x20 ≤ c := by
  induction given with
  | nil => exact nofun
  | cons first _ ih =>
      intro c inside
      rcases List.mem_append.mp inside with here | later
      · exact first.visible c here
      · exact ih c later

/-- Where the scanner stands: between two pieces, behind a reverse solidus, or in the digits
of a code. -/
inductive Escape
  | between
  | solidus
  | digits (seen value : Nat)
  deriving DecidableEq

/-- One byte moves the scanner on and may complete a byte of the content. -/
def scanByte : Escape → UInt8 → Option (Escape × List UInt8)
  | .between, c =>
      if c = quotationMark ∨ c < 0x20 then none
      else if c = reverseSolidus then some (.solidus, [])
      else some (.between, [c])
  | .solidus, c =>
      if c = 0x75 then some (.digits 0 0, [])
      else (unescape c).map fun byte => (.between, [byte])
  | .digits seen value, c =>
      (Hex.value c).bind fun digit =>
        if seen < 3 then some (.digits (seen + 1) (value * 16 + digit), [])
        else if value * 16 + digit < 256 then
          some (.between, [UInt8.ofNat (value * 16 + digit)])
        else none

def scanBytes (state : Escape) : List UInt8 → Option (Escape × List UInt8)
  | [] => some (state, [])
  | c :: rest =>
      (scanByte state c).bind fun here =>
        (scanBytes here.1 rest).map fun later => (later.1, here.2 ++ later.2)

/-- The content of a string, if the scanner accepts it and is not left inside an escape. -/
def contentOf (body : List UInt8) : Option (List UInt8) :=
  (scanBytes .between body).bind fun last => if last.1 = .between then some last.2 else none

theorem scanBytes_append {state next : Escape} {left right out : List UInt8}
    (first : scanBytes state left = some (next, out)) :
    scanBytes state (left ++ right) =
      (scanBytes next right).map fun later => (later.1, out ++ later.2) := by
  induction left generalizing state out with
  | nil =>
      injection first with same
      injection same with same nothing
      rw [← same, ← nothing]
      simp
  | cons c rest ih =>
      rw [scanBytes] at first
      obtain ⟨here, step, more⟩ := Option.bind_eq_some_iff.mp first
      obtain ⟨later, run, same⟩ := Option.map_eq_some_iff.mp more
      injection same with same whole
      rw [← same] at ih
      calc
        scanBytes state (c :: (rest ++ right)) =
            (scanBytes here.1 (rest ++ right)).map
              fun later => (later.1, here.2 ++ later.2) := by
          rw [scanBytes, step, Option.bind_some]
        _ = (scanBytes next right).map fun last => (last.1, out ++ last.2) := by
          rw [ih run, Option.map_map, ← whole, same]
          simp [Function.comp_def, List.append_assoc]

theorem Piece.scanned {piece : List UInt8} {byte : UInt8} (given : Piece piece byte) :
    scanBytes .between piece = some (.between, [byte]) := by
  have noQuote : reverseSolidus ≠ quotationMark := by decide
  have visible : ¬ reverseSolidus < 0x20 := by decide
  have zero : Hex.value 0x30 = some 0 := by decide
  cases given with
  | plain noQuote noSolidus visible =>
      simp [scanBytes, scanByte, noQuote, noSolidus, UInt8.not_lt.mpr visible]
  | short known =>
      simp [scanBytes, scanByte, noQuote, visible, known, (unescape_visible known).2]
  | @code _ _ high low upper lower =>
      have bound : high * 16 + low < 256 := by
        have below := Hex.value_lt upper
        have below' := Hex.value_lt lower
        omega
      simp [scanBytes, scanByte, noQuote, visible, zero, upper, lower, bound]

theorem StandsFor.scanned {body content : List UInt8} (given : StandsFor body content) :
    scanBytes .between body = some (.between, content) := by
  induction given with
  | nil => rfl
  | cons first _ ih => rw [scanBytes_append first.scanned, ih, Option.map_some, List.singleton_append]

theorem StandsFor.contentOf_eq {body content : List UInt8} (given : StandsFor body content) :
    contentOf body = some content := by
  rw [contentOf, given.scanned]
  rfl

/-- A literal for the bytes: quotation marks around pieces that stand for them. -/
def Quotes (literal content : List UInt8) : Prop :=
  ∃ body, literal = quotationMark :: body ++ [quotationMark] ∧ StandsFor body content ∧
    (∀ c ∈ body, 0x20 ≤ c) ∧ contentOf body = some content

theorem quotes_quote (text : List UInt8) : Quotes (quote text) text := by
  have pieces := standsFor_escaped text
  exact ⟨_, rfl, pieces, pieces.visible, pieces.contentOf_eq⟩

end JsonText
