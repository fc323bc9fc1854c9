import Arcal.Lib.JsonRefusal
import Arcal.Lib.JsonString

/-! How deep a text stands in arrays and objects, byte by byte. With anything but blanks in front
of it the text of an object is no JSON text any more. -/

namespace JsonText

variable {representable : List UInt8 → Bool}

inductive Mode
  | outside | inside | escaping
  deriving DecidableEq, Repr

/-- Where one byte leads. A bracket nobody opened leads nowhere, nor does a reverse solidus
outside a string or one in front of an opening brace. -/
def turn : Mode × Nat → UInt8 → Option (Mode × Nat)
  | (.outside, depth), c =>
      if c = quotationMark then some (.inside, depth)
      else if c = reverseSolidus then none
      else if c = beginArray ∨ c = beginObject then some (.outside, depth + 1)
      else if c = endArray ∨ c = endObject then
        if depth = 0 then none else some (.outside, depth - 1)
      else some (.outside, depth)
  | (.inside, depth), c =>
      if c = quotationMark then some (.outside, depth)
      else if c = reverseSolidus then some (.escaping, depth)
      else some (.inside, depth)
  | (.escaping, depth), c => if c = beginObject then none else some (.inside, depth)

def track (state : Mode × Nat) : List UInt8 → Option (Mode × Nat)
  | [] => some state
  | c :: rest => (turn state c).bind fun next => track next rest

def isPlain (c : UInt8) : Bool :=
  c != quotationMark && c != reverseSolidus && c != beginArray && c != beginObject &&
    c != endArray && c != endObject

theorem track_append (state : Mode × Nat) (left right : List UInt8) :
    track state (left ++ right) = (track state left).bind fun next => track next right := by
  induction left generalizing state with
  | nil => rfl
  | cons c rest ih =>
      rw [List.cons_append, track, track]
      cases turn state c with
      | none => rfl
      | some next => exact ih next

theorem track_split {state last : Mode × Nat} {left right : List UInt8}
    (run : track state (left ++ right) = some last) :
    ∃ next, track state left = some next ∧ track next right = some last := by
  rw [track_append] at run
  exact Option.bind_eq_some_iff.mp run

theorem turn_shift {mode mode' : Mode} {depth depth' : Nat} {c : UInt8} (more : Nat)
    (step : turn (mode, depth) c = some (mode', depth')) :
    turn (mode, depth + more) c = some (mode', depth' + more) := by
  cases mode with
  | outside =>
      unfold turn at step ⊢
      dsimp only at step ⊢
      split_ifs at step ⊢
      all_goals cases step
      all_goals grind
  | inside =>
      unfold turn at step ⊢
      dsimp only at step ⊢
      split_ifs at step ⊢
      all_goals cases step
      all_goals rfl
  | escaping =>
      unfold turn at step ⊢
      dsimp only at step ⊢
      split_ifs at step ⊢
      cases step
      rfl

theorem track_shift {text : List UInt8} {mode mode' : Mode} {depth depth' : Nat} (more : Nat)
    (run : track (mode, depth) text = some (mode', depth')) :
    track (mode, depth + more) text = some (mode', depth' + more) := by
  induction text generalizing mode depth with
  | nil =>
      cases run
      rfl
  | cons c rest ih =>
      rw [track] at run ⊢
      rcases Option.bind_eq_some_iff.mp run with ⟨⟨next, level⟩, step, later⟩
      rw [turn_shift more step]
      exact ih later

theorem turn_plain {c : UInt8} (plain : isPlain c = true) (depth : Nat) :
    turn (.outside, depth) c = some (.outside, depth) := by
  simp only [isPlain, Bool.and_eq_true, bne_iff_ne, ne_eq] at plain
  simp [turn, plain]

theorem track_plain {text : List UInt8} (plain : ∀ c ∈ text, isPlain c = true) (depth : Nat) :
    track (.outside, depth) text = some (.outside, depth) := by
  induction text with
  | nil => rfl
  | cons c rest ih =>
      rw [track, turn_plain (plain c (by simp))]
      exact ih fun d inside => plain d (List.mem_cons_of_mem _ inside)

/-- One run is inside a string where the other is outside. -/
inductive Opposite : Mode × Nat → Mode × Nat → Prop
  | inner (left right : Nat) : Opposite (.outside, left) (.inside, right)
  | outer (left right : Nat) : Opposite (.inside, left) (.outside, right)

theorem opposite_turn {state other next next' : Mode × Nat} {c : UInt8}
    (opposite : Opposite state other) (step : turn state c = some next)
    (step' : turn other c = some next') : Opposite next next' := by
  cases opposite with
  | inner left right =>
      unfold turn at step step'
      dsimp only at step step'
      split_ifs at step step'
      all_goals cases step
      all_goals cases step'
      all_goals constructor
  | outer left right =>
      unfold turn at step step'
      dsimp only at step step'
      split_ifs at step step'
      all_goals cases step
      all_goals cases step'
      all_goals constructor

theorem opposite_track {text : List UInt8} {state other last last' : Mode × Nat}
    (opposite : Opposite state other) (run : track state text = some last)
    (run' : track other text = some last') : Opposite last last' := by
  induction text generalizing state other with
  | nil =>
      cases run
      cases run'
      exact opposite
  | cons c rest ih =>
      rw [track] at run run'
      rcases Option.bind_eq_some_iff.mp run with ⟨next, step, later⟩
      rcases Option.bind_eq_some_iff.mp run' with ⟨next', step', later'⟩
      exact ih (opposite_turn opposite step step') later later'

/-- A piece of a string: it ends inside, and no part of it leads outside. -/
structure InString (piece : List UInt8) : Prop where
  ends : track (.inside, 0) piece = some (.inside, 0)
  stays : ∀ front back, piece = front ++ back →
    ∃ mode, mode ≠ .outside ∧ track (.inside, 0) front = some (mode, 0)

theorem InString.nil : InString [] where
  ends := rfl
  stays := by
    intro front back split
    rw [(List.append_eq_nil_iff.mp split.symm).1]
    exact ⟨.inside, by decide, rfl⟩

theorem InString.append {left right : List UInt8} (first : InString left)
    (second : InString right) : InString (left ++ right) where
  ends := by
    rw [track_append, first.ends]
    exact second.ends
  stays := by
    intro front back split
    rcases List.append_eq_append_iff.mp split with ⟨later, same, more⟩ | ⟨later, same, more⟩
    · rcases second.stays later back more with ⟨mode, within, run⟩
      refine ⟨mode, within, ?_⟩
      rw [same, track_append, first.ends]
      exact run
    · exact first.stays front later same

theorem InString.letter {c : UInt8} (noQuote : c ≠ quotationMark) (noSolidus : c ≠ reverseSolidus) :
    InString [c] where
  ends := by simp [track, turn, noQuote, noSolidus]
  stays := by
    intro front back split
    refine ⟨.inside, by decide, ?_⟩
    rcases List.append_eq_singleton_iff.mp split.symm with ⟨rfl, _⟩ | ⟨rfl, _⟩
    · rfl
    · simp [track, turn, noQuote, noSolidus]

theorem InString.escape {c : UInt8} (letter : c ≠ beginObject) : InString [reverseSolidus, c] where
  ends := by
    have mark : reverseSolidus ≠ quotationMark := by decide
    simp [track, turn, mark, letter]
  stays := by
    intro front back split
    have mark : reverseSolidus ≠ quotationMark := by decide
    cases front with
    | nil => exact ⟨.inside, by decide, rfl⟩
    | cons d more =>
        injection split with same split
        subst same
        rcases List.append_eq_singleton_iff.mp split.symm with ⟨rfl, _⟩ | ⟨rfl, _⟩
        · exact ⟨.escaping, by decide, by simp [track, turn, mark]⟩
        · exact ⟨.inside, by decide, by simp [track, turn, mark, letter]⟩

theorem InString.digit {c : UInt8} {n : Nat} (digit : Hex.value c = some n) : InString [c] := by
  apply InString.letter
  · intro same
    have none' : Hex.value quotationMark = none := by decide
    rw [same, none'] at digit
    cases digit
  · intro same
    have none' : Hex.value reverseSolidus = none := by decide
    rw [same, none'] at digit
    cases digit

theorem hex4_read {text rest : List UInt8} {unit : Nat} (read : hex4 text = some (unit, rest)) :
    ∃ digits, text = digits ++ rest ∧ InString digits := by
  unfold hex4 at read
  split at read
  · next first second third fourth more =>
    simp only [Option.bind_eq_bind, Option.bind_eq_some_iff, Option.pure_def, Option.some.injEq,
      Prod.mk.injEq] at read
    rcases read with ⟨_, one, _, two, _, three, _, four, _, rfl⟩
    exact ⟨[first, second, third, fourth], rfl,
      (InString.digit one).append ((InString.digit two).append
        ((InString.digit three).append (InString.digit four)))⟩
  · cases read

theorem lowSurrogate_read {text rest : List UInt8} {unit : Nat}
    (read : lowSurrogate text = some (unit, rest)) :
    ∃ letters, text = letters ++ rest ∧ InString letters := by
  unfold lowSurrogate at read
  split at read
  · next first second more =>
    split at read
    · next both =>
      rcases hex4_read (Option.filter_eq_some_iff.mp read).1 with ⟨digits, rfl, inside⟩
      refine ⟨[reverseSolidus, 0x75] ++ digits, by rw [both.1, both.2]; rfl, ?_⟩
      have letter : (0x75 : UInt8) ≠ beginObject := by decide
      exact (InString.escape letter).append inside
    · cases read
  · cases read

theorem unicode_read {text piece rest : List UInt8} (read : unicode text = some (piece, rest)) :
    ∃ letters, text = letters ++ rest ∧ InString letters := by
  unfold unicode at read
  rcases Option.bind_eq_some_iff.mp read with ⟨⟨unit, more⟩, first, later⟩
  rcases hex4_read first with ⟨digits, rfl, inside⟩
  dsimp only at later
  split at later
  · rcases Option.bind_eq_some_iff.mp later with ⟨⟨low, behind⟩, second, last⟩
    rcases lowSurrogate_read second with ⟨letters, rfl, inside'⟩
    injection last with last
    injection last with _ same
    dsimp only at same
    rw [same, ← List.append_assoc]
    exact ⟨digits ++ letters, rfl, inside.append inside'⟩
  · split at later
    · cases later
    · injection later with later
      injection later with _ same
      rw [same]
      exact ⟨digits, rfl, inside⟩

theorem escaped_read {text piece rest : List UInt8} (read : escaped text = some (piece, rest)) :
    ∃ letters, text = letters ++ rest ∧ InString (reverseSolidus :: letters) := by
  cases text with
  | nil => cases read
  | cons c more =>
      rw [escaped] at read
      by_cases byCode : c = 0x75
      · rw [if_pos byCode] at read
        rcases unicode_read read with ⟨letters, rfl, inside⟩
        have letter : c ≠ beginObject := by
          rw [byCode]
          decide
        exact ⟨c :: letters, rfl, (InString.escape letter).append inside⟩
      · rw [if_neg byCode] at read
        rcases Option.map_eq_some_iff.mp read with ⟨byte, known, same⟩
        cases same
        have letter : c ≠ beginObject := by
          intro brace
          have none' : unescape beginObject = none := by decide
          rw [brace, none'] at known
          cases known
        exact ⟨[c], rfl, InString.escape letter⟩

theorem scanString_read {fuel : Nat} {text found rest : List UInt8}
    (read : scanString fuel text = some (found, rest)) :
    ∃ body, text = body ++ quotationMark :: rest ∧ InString body := by
  induction fuel generalizing text found with
  | zero => cases read
  | succ fuel ih =>
      cases text with
      | nil => cases read
      | cons c more =>
          rw [scanString] at read
          by_cases mark : c = quotationMark
          · rw [if_pos mark] at read
            cases read
            exact ⟨[], by rw [mark]; rfl, .nil⟩
          · rw [if_neg mark] at read
            by_cases solidus : c = reverseSolidus
            · rw [if_pos solidus] at read
              rcases Option.bind_eq_some_iff.mp read with ⟨⟨piece, behind⟩, escape, later⟩
              rcases Option.map_eq_some_iff.mp later with ⟨⟨others, left⟩, scanned, same⟩
              cases same
              rcases escaped_read escape with ⟨letters, rfl, first⟩
              rcases ih scanned with ⟨body, rfl, second⟩
              refine ⟨reverseSolidus :: letters ++ body, ?_, first.append second⟩
              rw [solidus]
              simp
            · rw [if_neg solidus] at read
              split at read
              · cases read
              · rcases Option.map_eq_some_iff.mp read with ⟨⟨others, left⟩, scanned, same⟩
                cases same
                rcases ih scanned with ⟨body, rfl, second⟩
                exact ⟨[c] ++ body, rfl, (InString.letter mark solidus).append second⟩

def Closed (piece : List UInt8) : Prop := track (.outside, 0) piece = some (.outside, 0)

/-- In front of an opening brace some string or bracket is still open. -/
def Solid (piece : List UInt8) : Prop :=
  ∀ front back, piece = front ++ beginObject :: back → front ≠ [] →
    track (.outside, 0) front ≠ some (.outside, 0)

theorem Closed.append {left right : List UInt8} (first : Closed left) (second : Closed right) :
    Closed (left ++ right) := by
  unfold Closed
  rw [track_append, first]
  exact second

theorem Closed.plain {piece : List UInt8} (plain : ∀ c ∈ piece, isPlain c = true) : Closed piece :=
  track_plain plain 0

theorem Solid.plain {piece : List UInt8} (plain : ∀ c ∈ piece, isPlain c = true) : Solid piece := by
  intro front back split
  have brace := plain beginObject (by rw [split]; simp)
  cases brace

theorem isPlain_isSpace {c : UInt8} (space : isSpace c = true) : isPlain c = true := by
  simp only [isSpace, Bool.or_eq_true, beq_iff_eq] at space
  rcases space with ((rfl | rfl) | rfl) | rfl
  · decide
  · decide
  · decide
  · decide

theorem Closed.blanks {blanks : List UInt8} (blank : ∀ c ∈ blanks, isSpace c = true) :
    Closed blanks := Closed.plain fun c inside => isPlain_isSpace (blank c inside)

theorem closed_string {body : List UInt8} (inside : InString body) :
    Closed (quotationMark :: body ++ [quotationMark]) := by
  have opening : turn (.outside, 0) quotationMark = some (.inside, 0) := by decide
  have closing : track (.inside, 0) [quotationMark] = some (.outside, 0) := by decide
  calc
    track (.outside, 0) (quotationMark :: body ++ [quotationMark]) =
        track (.inside, 0) (body ++ [quotationMark]) := by
      rw [List.cons_append, track, opening, Option.bind_some]
    _ = track (.inside, 0) [quotationMark] := by
      rw [track_append, inside.ends, Option.bind_some]
    _ = some (.outside, 0) := closing

theorem split_last {whole front back : List UInt8} {last c : UInt8}
    (split : whole ++ [last] = front ++ c :: back) : ∃ more, whole = front ++ more := by
  rcases List.append_eq_append_iff.mp split with ⟨later, same, more⟩ | ⟨later, same, more⟩
  · have none' : later = [] := by
      have sizes := congrArg List.length more
      simp only [List.length_append, List.length_cons, List.length_nil] at sizes
      exact List.length_eq_zero_iff.mp (by omega)
    exact ⟨[], by rw [same, none', List.append_nil, List.append_nil]⟩
  · exact ⟨later, same⟩

theorem solid_string {body : List UInt8} (inside : InString body) :
    Solid (quotationMark :: body ++ [quotationMark]) := by
  intro front back split some' closed
  cases front with
  | nil => exact some' rfl
  | cons c more =>
      injection split with same split
      have opening : turn (.outside, 0) quotationMark = some (.inside, 0) := by decide
      rcases split_last split with ⟨later, body⟩
      rcases inside.stays more later body with ⟨mode, within, run⟩
      rw [← same, track, opening, Option.bind_some, run] at closed
      injection closed with closed
      injection closed with outside _
      exact within outside

theorem closed_bracket {left right : UInt8} {inner : List UInt8}
    (opening : turn (.outside, 0) left = some (.outside, 1))
    (closing : turn (.outside, 1) right = some (.outside, 0)) (closed : Closed inner) :
    Closed (left :: inner ++ [right]) := by
  have within : track (.outside, 1) inner = some (.outside, 1) := track_shift 1 closed
  calc
    track (.outside, 0) (left :: inner ++ [right]) = track (.outside, 1) (inner ++ [right]) := by
      rw [List.cons_append, track, opening, Option.bind_some]
    _ = track (.outside, 1) [right] := by rw [track_append, within, Option.bind_some]
    _ = some (.outside, 0) := by
      rw [track, closing]
      rfl

theorem solid_bracket {left right : UInt8} {inner : List UInt8}
    (opening : turn (.outside, 0) left = some (.outside, 1)) (closed : Closed inner) :
    Solid (left :: inner ++ [right]) := by
  intro front back split some' balanced
  cases front with
  | nil => exact some' rfl
  | cons c more =>
      injection split with same split
      rcases split_last split with ⟨later, body⟩
      rw [Closed, body] at closed
      rcases track_split closed with ⟨⟨mode, depth⟩, run, _⟩
      have deeper : track (.outside, 1) more = some (mode, depth + 1) := track_shift 1 run
      rw [← same, track, opening, Option.bind_some, deeper] at balanced
      injection balanced with balanced
      injection balanced with _ level
      cases level

theorem skip_split (text : List UInt8) :
    ∃ blanks, text = blanks ++ skip text ∧ ∀ c ∈ blanks, isSpace c = true :=
  ⟨text.takeWhile isSpace, (List.takeWhile_append_dropWhile).symm,
    fun _ inside => List.mem_takeWhile_imp inside⟩

/-- What was read of a value: blanks, then a balanced piece. -/
structure Read (text rest blanks piece : List UInt8) : Prop where
  split : text = blanks ++ (piece ++ rest)
  blank : ∀ c ∈ blanks, isSpace c = true
  closed : Closed piece
  solid : Solid piece

theorem Read.closed_all {text rest blanks piece : List UInt8}
    (read : Read text rest blanks piece) : Closed (blanks ++ piece) :=
  (Closed.blanks read.blank).append read.closed

section Pieces

variable {text rest blanks : List UInt8}

theorem Read.string {body : List UInt8} (blank : ∀ c ∈ blanks, isSpace c = true)
    (split : text = blanks ++ quotationMark :: (body ++ quotationMark :: rest))
    (inside : InString body) :
    Read text rest blanks (quotationMark :: body ++ [quotationMark]) where
  split := by simp [split]
  blank := blank
  closed := closed_string inside
  solid := solid_string inside

theorem Read.bracket {left right : UInt8} {inner : List UInt8}
    (blank : ∀ c ∈ blanks, isSpace c = true)
    (split : text = blanks ++ left :: (inner ++ right :: rest))
    (opening : turn (.outside, 0) left = some (.outside, 1))
    (closing : turn (.outside, 1) right = some (.outside, 0)) (closed : Closed inner) :
    Read text rest blanks (left :: inner ++ [right]) where
  split := by simp [split]
  blank := blank
  closed := closed_bracket opening closing closed
  solid := solid_bracket opening closed

theorem Read.plain {piece : List UInt8} (blank : ∀ c ∈ blanks, isSpace c = true)
    (split : text = blanks ++ (piece ++ rest)) (plain : ∀ c ∈ piece, isPlain c = true) :
    Read text rest blanks piece where
  split := split
  blank := blank
  closed := Closed.plain plain
  solid := Solid.plain plain

theorem Read.word {behind word : List UInt8} (blank : ∀ c ∈ blanks, isSpace c = true)
    (split : text = blanks ++ behind) (starts : word.isPrefixOf behind = true)
    (stop : behind.drop word.length = rest) (plain : word.all isPlain = true) :
    Read text rest blanks word := by
  rcases List.isPrefixOf_iff_prefix.mp starts with ⟨more, same⟩
  rw [← same, List.drop_left] at stop
  rw [← same, stop] at split
  exact Read.plain blank split (List.all_eq_true.mp plain)

theorem isPlain_isNumberByte {c : UInt8} (byte : isNumberByte c = true) : isPlain c = true := by
  have noQuote : isNumberByte quotationMark = false := by decide
  have noSolidus : isNumberByte reverseSolidus = false := by decide
  have noBeginArray : isNumberByte beginArray = false := by decide
  have noBeginObject : isNumberByte beginObject = false := by decide
  have noEndArray : isNumberByte endArray = false := by decide
  have noEndObject : isNumberByte endObject = false := by decide
  simp only [isPlain, Bool.and_eq_true, bne_iff_ne, ne_eq]
  refine ⟨⟨⟨⟨⟨?_, ?_⟩, ?_⟩, ?_⟩, ?_⟩, ?_⟩
  all_goals
    intro same
    simp_all

theorem scanNumber_read {behind : List UInt8} {value : Value}
    (blank : ∀ c ∈ blanks, isSpace c = true) (split : text = blanks ++ behind)
    (scanned : scanNumber representable behind = some (value, rest)) :
    Read text rest blanks (behind.takeWhile isNumberByte) := by
  unfold scanNumber at scanned
  dsimp only at scanned
  split at scanned
  · injection scanned with scanned
    injection scanned with _ stop
    rw [← stop]
    apply Read.plain blank
    · rw [List.takeWhile_append_dropWhile]
      exact split
    · intro c inside
      exact isPlain_isNumberByte (List.mem_takeWhile_imp inside)
  · cases scanned

theorem skip_head {behind : List UInt8} {c : UInt8} (head : (skip behind).head? = some c) :
    ∃ inner, behind = inner ++ c :: (skip behind).tail ∧ Closed inner := by
  rcases skip_split behind with ⟨inner, split, blank⟩
  refine ⟨inner, ?_, Closed.blanks blank⟩
  have shape : skip behind = c :: (skip behind).tail := (List.cons_head?_tail head).symm
  rw [← shape]
  exact split

theorem closed_comma : Closed [comma] := Closed.plain (by simp [comma, isPlain]; decide)

theorem closed_colon : Closed [colon] := Closed.plain (by simp [colon, isPlain]; decide)

end Pieces

mutual
theorem parseValue_read : (fuel : Nat) → (text : List UInt8) → (value : Value) →
    (rest : List UInt8) → parseValue representable fuel text = some (value, rest) →
    ∃ blanks piece, Read text rest blanks piece
  | 0, _, _, _, parsed => by
      rw [parseValue] at parsed
      cases parsed
  | fuel + 1, text, value, rest, parsed => by
      rcases skip_split text with ⟨blanks, split, blank⟩
      rw [parseValue] at parsed
      cases first : skip text with
      | nil =>
          rw [first] at parsed
          cases parsed
      | cons c behind =>
          rw [first] at parsed split
          dsimp only at parsed
          split_ifs at parsed with string array noItems object noMembers isNull isTrue isFalse
          · rcases Option.map_eq_some_iff.mp parsed with ⟨⟨found, left⟩, scanned, same⟩
            cases same
            rcases scanString_read scanned with ⟨body, shape, inside⟩
            rw [string, shape] at split
            exact ⟨blanks, _, Read.string blank split inside⟩
          · cases parsed
            rcases skip_head noItems with ⟨inner, shape, closed⟩
            rw [array, shape] at split
            exact ⟨blanks, _, Read.bracket blank split (by decide) (by decide) closed⟩
          · rcases Option.map_eq_some_iff.mp parsed with ⟨⟨found, left⟩, items, same⟩
            cases same
            rcases parseItems_read fuel behind found left items with ⟨inner, shape, closed⟩
            rw [array, shape] at split
            exact ⟨blanks, _, Read.bracket blank split (by decide) (by decide) closed⟩
          · cases parsed
            rcases skip_head noMembers with ⟨inner, shape, closed⟩
            rw [object, shape] at split
            exact ⟨blanks, _, Read.bracket blank split (by decide) (by decide) closed⟩
          · rcases Option.map_eq_some_iff.mp parsed with ⟨⟨found, left⟩, members, same⟩
            cases same
            rcases parseMembers_read fuel behind found left members with ⟨inner, shape, closed⟩
            rw [object, shape] at split
            exact ⟨blanks, _, Read.bracket blank split (by decide) (by decide) closed⟩
          · injection parsed with parsed
            injection parsed with _ stop
            exact ⟨blanks, _, Read.word blank split isNull stop (by decide)⟩
          · injection parsed with parsed
            injection parsed with _ stop
            exact ⟨blanks, _, Read.word blank split isTrue stop (by decide)⟩
          · injection parsed with parsed
            injection parsed with _ stop
            exact ⟨blanks, _, Read.word blank split isFalse stop (by decide)⟩
          · exact ⟨blanks, _, scanNumber_read blank split parsed⟩

theorem parseItems_read : (fuel : Nat) → (text : List UInt8) → (items : List Value) →
    (rest : List UInt8) → parseItems representable fuel text = some (items, rest) →
    ∃ inner, text = inner ++ endArray :: rest ∧ Closed inner
  | 0, _, _, _, parsed => by
      rw [parseItems] at parsed
      cases parsed
  | fuel + 1, text, items, rest, parsed => by
      rw [parseItems] at parsed
      rcases Option.bind_eq_some_iff.mp parsed with ⟨⟨item, behind⟩, one, later⟩
      rcases parseValue_read fuel text item behind one with ⟨blanks, piece, read⟩
      rcases skip_split behind with ⟨blanks', split, blank⟩
      cases next : skip behind with
      | nil =>
          dsimp only at later
          rw [next] at later
          cases later
      | cons c more =>
          dsimp only at later
          rw [next] at later split
          dsimp only at later
          have front : Closed (blanks ++ piece ++ blanks') :=
            read.closed_all.append (Closed.blanks blank)
          split_ifs at later with isComma isEnd
          · rcases Option.map_eq_some_iff.mp later with ⟨⟨others, left⟩, items', same⟩
            cases same
            rcases parseItems_read fuel more others left items' with ⟨inner, shape, closed⟩
            refine ⟨blanks ++ piece ++ blanks' ++ ([comma] ++ inner), ?_,
              front.append (closed_comma.append closed)⟩
            rw [read.split, split, isComma, shape]
            simp
          · injection later with later
            injection later with _ stop
            refine ⟨blanks ++ piece ++ blanks', ?_, front⟩
            rw [read.split, split, isEnd, stop]
            simp

theorem parseMembers_read : (fuel : Nat) → (text : List UInt8) →
    (members : List (List UInt8 × Value)) → (rest : List UInt8) →
    parseMembers representable fuel text = some (members, rest) →
    ∃ inner, text = inner ++ endObject :: rest ∧ Closed inner
  | 0, _, _, _, parsed => by
      rw [parseMembers] at parsed
      cases parsed
  | fuel + 1, text, members, rest, parsed => by
      rw [parseMembers] at parsed
      rcases skip_split text with ⟨blanks, split, blank⟩
      cases first : skip text with
      | nil =>
          rw [first] at parsed
          cases parsed
      | cons mark named =>
          rw [first] at parsed split
          dsimp only at parsed
          split_ifs at parsed with isQuote
          rcases Option.bind_eq_some_iff.mp parsed with ⟨⟨key, afterKey⟩, scanned, parsed⟩
          rcases scanString_read scanned with ⟨body, keyShape, inside⟩
          rcases skip_split afterKey with ⟨blanks', split', blank'⟩
          dsimp only at parsed
          cases second : skip afterKey with
          | nil =>
              rw [second] at parsed
              cases parsed
          | cons separator valued =>
              rw [second] at parsed split'
              dsimp only at parsed
              split_ifs at parsed with isColon
              rcases Option.bind_eq_some_iff.mp parsed with ⟨⟨value, behind⟩, one, parsed⟩
              rcases parseValue_read fuel valued value behind one with ⟨blanks₂, piece, read⟩
              rcases skip_split behind with ⟨blanks₃, split₃, blank₃⟩
              have named' : Closed (blanks ++ (quotationMark :: body ++ [quotationMark])) :=
                (Closed.blanks blank).append (closed_string inside)
              have front := ((named'.append (Closed.blanks blank')).append closed_colon).append
                (read.closed_all.append (Closed.blanks blank₃))
              have shape : text = blanks ++ (quotationMark :: body ++ [quotationMark]) ++ blanks' ++
                  [colon] ++ (blanks₂ ++ piece ++ blanks₃) ++ skip behind := by
                rw [split, isQuote, keyShape, split', isColon, read.split]
                conv_lhs => rw [split₃]
                simp
              dsimp only at parsed
              cases third : skip behind with
              | nil =>
                  rw [third] at parsed
                  cases parsed
              | cons c more =>
                  rw [third] at parsed shape
                  dsimp only at parsed
                  split_ifs at parsed with isComma isEnd
                  · rcases Option.map_eq_some_iff.mp parsed with ⟨⟨others, left⟩, later, same⟩
                    cases same
                    rcases parseMembers_read fuel more others left later with
                      ⟨inner, rest', closed⟩
                    refine ⟨_, ?_, front.append (closed_comma.append closed)⟩
                    rw [shape, isComma, rest']
                    simp
                  · injection parsed with parsed
                    injection parsed with _ stop
                    refine ⟨_, ?_, front⟩
                    rw [shape, isEnd, stop]
end

/-- No run that starts within a value comes to its end over a balanced text that opens an
object. -/
theorem track_ne_closed {state : Mode × Nat} {text : List UInt8} (nested : Closed text)
    (opens : text.head? = some beginObject) (started : state ≠ (.outside, 0)) :
    track state text ≠ some (.outside, 0) := by
  intro run
  rcases state with ⟨mode, depth⟩
  cases mode with
  | outside =>
      have deeper : track (.outside, 0 + depth) text = some (.outside, 0 + depth) :=
        track_shift depth nested
      rw [Nat.zero_add, run] at deeper
      injection deeper with same
      exact started same.symm
  | inside =>
      have opposite := opposite_track (Opposite.inner 0 depth) nested run
      cases opposite
  | escaping =>
      cases text with
      | nil => cases opens
      | cons c rest =>
          injection opens with brace
          rw [track, brace] at run
          cases run

/-- With more than blanks in front of it, an object's text is no text of a value. -/
theorem parse_behind {front text : List UInt8} {value : Value} (nested : Closed text)
    (opens : text.head? = some beginObject)
    (parsed : parse representable (front ++ text) = some value) :
    ∀ c ∈ front, isSpace c = true := by
  unfold parse at parsed
  split_ifs at parsed with valid
  rcases Option.bind_eq_some_iff.mp parsed with ⟨⟨found, rest⟩, first, last⟩
  split_ifs at last with nothing
  have blankRest : ∀ c ∈ rest, isSpace c = true := by
    rcases skip_split rest with ⟨blanks, split, blank⟩
    dsimp only at nothing
    rw [nothing, List.append_nil] at split
    rw [split]
    exact blank
  have visible : beginObject ∉ rest := by
    intro inside
    cases blankRest beginObject inside
  have inText : beginObject ∈ text := List.mem_of_mem_head? opens
  rcases parseValue_read _ _ _ _ first with ⟨blanks, piece, read⟩
  rcases List.append_eq_append_iff.mp read.split with ⟨more, same, _⟩ | ⟨part, same, split⟩
  · intro c inside
    exact read.blank c (by rw [same]; exact List.mem_append_left _ inside)
  · by_cases started : part = []
    · rw [same, started, List.append_nil]
      exact read.blank
    · exfalso
      rcases List.append_eq_append_iff.mp split with ⟨more, _, shape⟩ | ⟨more, shape, shape'⟩
      · exact visible (by rw [shape]; exact List.mem_append_right _ inText)
      · cases more with
        | nil => exact visible (by rw [← List.nil_append rest, ← shape']; exact inText)
        | cons c later =>
            have brace : c = beginObject := by
              rw [shape'] at opens
              injection opens
            have closed := read.closed
            rw [Closed, shape] at closed
            rcases track_split closed with ⟨state, run, run'⟩
            have whole : track state text = some (.outside, 0) := by
              rw [shape', track_append, run']
              exact Closed.blanks blankRest
            apply track_ne_closed nested opens ?_ whole
            intro back
            rw [back] at run
            rw [brace] at shape
            exact read.solid part later shape started run

mutual
/-- No literal has a byte that means something outside a string. -/
def Value.Plain : Value → Prop
  | .number literal => ∀ c ∈ literal, isPlain c = true
  | .array items => PlainItems items
  | .object members => PlainMembers members
  | _ => True

def PlainItems : List Value → Prop
  | [] => True
  | item :: rest => item.Plain ∧ PlainItems rest

def PlainMembers : List (List UInt8 × Value) → Prop
  | [] => True
  | member :: rest => member.2.Plain ∧ PlainMembers rest
end

theorem Piece.inString {piece : List UInt8} {byte : UInt8} (given : Piece piece byte) :
    InString piece := by
  cases given with
  | plain noQuote noSolidus _ => exact InString.letter noQuote noSolidus
  | @short letter _ known =>
      apply InString.escape
      intro brace
      have none' : unescape beginObject = none := by decide
      rw [brace, none'] at known
      cases known
  | code upper lower =>
      have code : InString [reverseSolidus, 0x75] := InString.escape (by decide)
      have zero : InString [0x30] := InString.letter (by decide) (by decide)
      exact (code.append (zero.append zero)).append
        ((InString.digit upper).append (InString.digit lower))

theorem StandsFor.inString {body content : List UInt8} (given : StandsFor body content) :
    InString body := by
  induction given with
  | nil => exact .nil
  | cons first _ ih => exact first.inString.append ih

theorem closed_quote (text : List UInt8) : Closed (quote text) :=
  closed_string (standsFor_escaped text).inString

theorem closed_continued {pieces : List (List UInt8)} (closed : ∀ piece ∈ pieces, Closed piece) :
    Closed (continued pieces) := by
  induction pieces with
  | nil => rfl
  | cons piece rest ih =>
      have later := ih fun other inside => closed other (List.mem_cons_of_mem _ inside)
      exact (closed_comma.append (closed piece (by simp))).append later

theorem closed_separated {pieces : List (List UInt8)} (closed : ∀ piece ∈ pieces, Closed piece) :
    Closed (separated pieces) := by
  cases pieces with
  | nil => rfl
  | cons piece rest =>
      exact (closed piece (by simp)).append
        (closed_continued fun other inside => closed other (List.mem_cons_of_mem _ inside))

mutual
theorem closed_render : (value : Value) → value.Plain → Closed (render value)
  | .null, _ => Closed.plain (List.all_eq_true.mp (by decide))
  | .bool true, _ => Closed.plain (List.all_eq_true.mp (by decide))
  | .bool false, _ => Closed.plain (List.all_eq_true.mp (by decide))
  | .number literal, plain => by
      simp only [Value.Plain] at plain
      exact Closed.plain plain
  | .string text, _ => by
      rw [render]
      exact closed_quote text
  | .array items, plain => by
      simp only [Value.Plain] at plain
      rw [render, ← List.cons_append]
      exact closed_bracket (by decide) (by decide)
        (closed_separated (closed_renderItems items plain))
  | .object members, plain => by
      simp only [Value.Plain] at plain
      rw [render, ← List.cons_append]
      exact closed_bracket (by decide) (by decide)
        (closed_separated (closed_renderMembers members plain))

theorem closed_renderItems : (items : List Value) → PlainItems items →
    ∀ piece ∈ renderItems items, Closed piece
  | [], _ => by simp [renderItems]
  | item :: rest, plain => by
      simp only [PlainItems] at plain
      rw [renderItems, List.forall_mem_cons]
      exact ⟨closed_render item plain.1, closed_renderItems rest plain.2⟩

theorem closed_renderMembers : (members : List (List UInt8 × Value)) → PlainMembers members →
    ∀ piece ∈ renderMembers members, Closed piece
  | [], _ => by simp [renderMembers]
  | (key, value) :: rest, plain => by
      simp only [PlainMembers] at plain
      rw [renderMembers, List.forall_mem_cons]
      have colon' : quote key ++ colon :: render value =
          quote key ++ ([colon] ++ render value) := rfl
      rw [colon']
      exact ⟨(closed_quote key).append (closed_colon.append (closed_render value plain.1)),
        closed_renderMembers rest plain.2⟩
end

theorem skip_blanks {blanks : List UInt8} (blank : ∀ c ∈ blanks, isSpace c = true)
    (text : List UInt8) : skip (blanks ++ text) = skip text := by
  induction blanks with
  | nil => rfl
  | cons c rest ih =>
      have space := blank c (by simp)
      rw [List.cons_append, skip, List.dropWhile_cons_of_pos space]
      exact ih fun d inside => blank d (List.mem_cons_of_mem _ inside)

theorem valid_behind_blanks {blanks text : List UInt8} (blank : ∀ c ∈ blanks, isSpace c = true)
    (valid : Utf8.Valid (blanks ++ text)) : Utf8.Valid text := by
  induction blanks with
  | nil => exact valid
  | cons c rest ih =>
      have ascii : c < 0x80 := by
        have space := blank c (by simp)
        simp only [isSpace, Bool.or_eq_true, beq_iff_eq] at space
        rcases space with ((rfl | rfl) | rfl) | rfl
        · decide
        · decide
        · decide
        · decide
      exact ih (fun d inside => blank d (List.mem_cons_of_mem _ inside)) (valid.tail ascii)

theorem parseValue_behind_blanks {blanks : List UInt8} (blank : ∀ c ∈ blanks, isSpace c = true)
    (text : List UInt8) (fuel : Nat) :
    parseValue representable fuel (blanks ++ text) = parseValue representable fuel text := by
  cases fuel with
  | zero => rw [parseValue, parseValue]
  | succ fuel => rw [parseValue, parseValue, skip_blanks blank]

theorem parse_behind_blanks {blanks : List UInt8} (blank : ∀ c ∈ blanks, isSpace c = true)
    {value found : Value} (settled : value.Settled representable)
    (parsed : parse representable (blanks ++ render value) = some found) :
    value.Sound representable ∧ value.Encoded := by
  unfold parse at parsed
  split_ifs at parsed with valid
  have encoded := encoded_of_valid value (valid_behind_blanks blank valid)
  refine ⟨?_, encoded⟩
  by_contra unsound
  have ends : Ends [] := fun c first => nomatch first
  have enough : 2 * (render value ++ []).length < 2 * (blanks ++ render value).length + 1 := by
    rw [List.append_nil, List.length_append]
    omega
  have stops := parseValue_stops value settled unsound
    (2 * (blanks ++ render value).length + 1) [] enough ends
  rw [List.append_nil] at stops
  rw [parseValue_behind_blanks blank, stops] at parsed
  cases parsed

end JsonText
