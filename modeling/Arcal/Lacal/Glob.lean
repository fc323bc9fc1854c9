import Arcal.Lacal.Protocol
import Arcal.Lib.Glob

/-! What `globMatch` decides. -/

namespace Arcal.Lacal

open Glob

/-- An asterisk fits any piece of the text, a question mark one character, anything else
itself. -/
def Fits (symbol : UInt8) (piece : Bytes) : Prop :=
  if symbol = asterisk then True
  else if symbol = questionMark then piece.length = 1
  else piece = [symbol]

theorem star_asterisk : Star Fits asterisk := by
  intro piece
  rw [Fits, if_pos rfl]
  trivial

theorem single_of_ne {symbol : UInt8} (plain : symbol ≠ asterisk) : Single Fits symbol := by
  intro piece fitting
  rw [Fits, if_neg plain] at fitting
  split_ifs at fitting
  · exact List.length_eq_one_iff.mp fitting
  · exact ⟨symbol, fitting⟩

theorem fits_singleton {symbol c : UInt8} (plain : symbol ≠ asterisk) :
    Fits symbol [c] ↔ symbol = questionMark ∨ symbol = c := by
  rw [Fits, if_neg plain]
  by_cases any : symbol = questionMark
  · rw [if_pos any]
    exact iff_of_true rfl (Or.inl any)
  · rw [if_neg any, List.singleton_inj]
    exact ⟨fun same => Or.inr same.symm, fun either => (either.resolve_left any).symm⟩

theorem matches_nil_text {pattern : Bytes} :
    Matches Fits pattern [] ↔ pattern.all (· == asterisk) = true := by
  induction pattern with
  | nil => exact iff_of_true (matches_nil.mpr rfl) rfl
  | cons symbol rest ih =>
      rw [List.all_cons, Bool.and_eq_true, beq_iff_eq]
      by_cases star : symbol = asterisk
      · rw [star, matches_star star_asterisk, ← ih]
        constructor
        · rintro ⟨n, _, later⟩
          rw [List.drop_nil] at later
          exact ⟨rfl, later⟩
        · rintro ⟨_, later⟩
          exact ⟨0, Nat.le_refl 0, later⟩
      · exact iff_of_false (not_matches_single_nil (single_of_ne star)) fun both => star both.1

section Loop

variable {pattern text : Bytes}

/-- What the loop is still to find: a match from where it stands, or one in which the last
asterisk takes in more of the text. -/
def Sought (pattern text : Bytes) (p t : Nat) (star : Option Nat) (matched : Nat) : Prop :=
  Matches Fits (pattern.drop p) (text.drop t) ∨
    ∃ place, star = some place ∧ ∃ k, matched < k ∧ k ≤ text.length ∧
      Matches Fits (pattern.drop (place + 1)) (text.drop k)

/-- Between the last asterisk and `p` the pattern has symbols for single characters, one for
each character from `matched` to `t`. -/
def Since (pattern : Bytes) (p t : Nat) (star : Option Nat) (matched : Nat) : Prop :=
  ∀ place, star = some place → ∃ segment,
    pattern.drop (place + 1) = segment ++ pattern.drop p ∧ matched + segment.length = t ∧
      ∀ symbol ∈ segment, Single Fits symbol

theorem Since.fresh {p t : Nat} : Since pattern (p + 1) t (some p) t := by
  intro place same
  cases same
  exact ⟨[], rfl, rfl, nofun⟩

theorem Since.next {p t matched : Nat} {star : Option Nat}
    (since : Since pattern p t star matched) {symbol : UInt8}
    (here : pattern.drop p = symbol :: pattern.drop (p + 1)) (plain : symbol ≠ asterisk) :
    Since pattern (p + 1) (t + 1) star matched := by
  intro place same
  obtain ⟨segment, whole, long, singles⟩ := since place same
  refine ⟨segment ++ [symbol], ?_, ?_, ?_⟩
  · rw [whole, here, List.append_assoc]
    rfl
  · rw [List.length_append, List.length_singleton]
    omega
  · intro other member
    cases List.mem_append.mp member with
    | inl before => exact singles other before
    | inr last =>
        rw [List.mem_singleton.mp last]
        exact single_of_ne plain

/-- Giving up the earlier asterisks loses no match: where one of them takes in more, the one
at `p` can do so instead. -/
theorem matches_of_earlier {p t matched place k : Nat} {symbol : UInt8} {rest : Bytes}
    (since : Since pattern p t (some place) matched) (here : pattern.drop p = symbol :: rest)
    (star : Star Fits symbol) (further : matched < k)
    (found : Matches Fits (pattern.drop (place + 1)) (text.drop k)) :
    Matches Fits (pattern.drop p) (text.drop t) := by
  obtain ⟨segment, whole, long, singles⟩ := since place rfl
  rw [whole] at found
  have after := (found.skip singles).2
  rw [List.drop_drop] at after
  have split : k + segment.length = t + (k - matched) := by omega
  rw [split, ← List.drop_drop] at after
  rw [here] at after ⊢
  exact after.absorb star

theorem sought_of_end {p t matched : Nat} {star : Option Nat} (atEnd : ¬ t < text.length)
    (since : Since pattern p t star matched) :
    Sought pattern text p t star matched ↔ Matches Fits (pattern.drop p) [] := by
  have rest : text.drop t = [] := List.drop_eq_nil_of_le (by omega)
  rw [Sought, rest]
  constructor
  · rintro (here | ⟨place, rfl, k, further, inside, found⟩)
    · exact here
    · obtain ⟨segment, whole, long, singles⟩ := since place rfl
      rw [whole] at found
      have room := (found.skip singles).1
      rw [List.length_drop] at room
      omega
  · exact Or.inl

theorem not_matches_of_stuck {p t : Nat} (inside : t < text.length)
    (noFit : ¬ (p < pattern.length ∧
      (pattern[p]? = some questionMark ∨ pattern[p]? = text[t]?)))
    (noAsterisk : ¬ (p < pattern.length ∧ pattern[p]? = some asterisk)) :
    ¬ Matches Fits (pattern.drop p) (text.drop t) := by
  intro found
  rw [List.drop_eq_getElem_cons inside] at found
  by_cases more : p < pattern.length
  · have symbol := List.getElem?_eq_getElem more
    have character := List.getElem?_eq_getElem inside
    have plain : pattern[p] ≠ asterisk := by
      intro same
      exact noAsterisk ⟨more, by rw [symbol, same]⟩
    rw [List.drop_eq_getElem_cons more, matches_single (single_of_ne plain),
      fits_singleton plain] at found
    apply noFit
    refine ⟨more, found.1.imp ?_ ?_⟩
    · intro any
      rw [symbol, any]
    · intro own
      rw [symbol, character, own]
  · rw [List.drop_eq_nil_of_le (by omega), matches_nil] at found
    cases found

theorem globLoop_iff (noStar : asterisk ∉ text) (p t : Nat) (star : Option Nat) (matched : Nat)
    (behind : matched ≤ t) (since : Since pattern p t star matched) :
    globLoop pattern text p t star matched behind = true ↔
      Sought pattern text p t star matched := by
  induction p, t, star, matched, behind using globLoop.induct pattern text with
  | case1 p t star matched behind inside fit ih =>
      have here : pattern.drop p = pattern[p] :: pattern.drop (p + 1) :=
        List.drop_eq_getElem_cons fit.1
      have there : text.drop t = text[t] :: text.drop (t + 1) := List.drop_eq_getElem_cons inside
      have either : pattern[p] = questionMark ∨ pattern[p] = text[t] := by
        simpa [List.getElem?_eq_getElem fit.1, List.getElem?_eq_getElem inside] using fit.2
      have plain : pattern[p] ≠ asterisk := by
        intro same
        cases either with
        | inl any => exact absurd (any.symm.trans same) (by decide)
        | inr own => exact noStar (same ▸ own ▸ List.getElem_mem inside)
      have one : Matches Fits (pattern.drop p) (text.drop t) ↔
          Matches Fits (pattern.drop (p + 1)) (text.drop (t + 1)) := by
        rw [here, there, matches_single (single_of_ne plain), fits_singleton plain]
        exact and_iff_right either
      rw [globLoop.eq_def, if_pos inside, if_pos fit, ih (since.next here plain), Sought, Sought, one]
  | case2 p t star matched behind inside noFit isStar ih =>
      have symbol : pattern[p] = asterisk := by
        simpa [List.getElem?_eq_getElem isStar.1] using isStar.2
      have here : pattern.drop p = asterisk :: pattern.drop (p + 1) := by
        rw [← symbol]
        exact List.drop_eq_getElem_cons isStar.1
      rw [globLoop.eq_def, if_pos inside, if_neg noFit, if_pos isStar, ih Since.fresh]
      have now : Sought pattern text (p + 1) t (some p) t ↔
          Matches Fits (pattern.drop p) (text.drop t) := by
        rw [Sought, here, matches_star star_asterisk]
        constructor
        · rintro (none | ⟨place, same, k, further, bounded, found⟩)
          · exact ⟨0, Nat.zero_le _, none⟩
          · cases same
            refine ⟨k - t, by rw [List.length_drop]; omega, ?_⟩
            rw [List.drop_drop, Nat.add_sub_cancel' (by omega)]
            exact found
        · rintro ⟨n, bounded, found⟩
          rw [List.length_drop] at bounded
          rw [List.drop_drop] at found
          by_cases none : n = 0
          · exact Or.inl (by rw [none] at found; exact found)
          · exact Or.inr ⟨p, rfl, t + n, by omega, by omega, found⟩
      rw [now]
      constructor
      · exact Or.inl
      · rintro (found | ⟨place, rfl, k, further, _, found⟩)
        · exact found
        · exact matches_of_earlier since here star_asterisk further found
  | case3 p t matched behind inside noFit noAsterisk place ih =>
      have stuck := not_matches_of_stuck inside noFit noAsterisk
      rw [globLoop.eq_def, if_pos inside, if_neg noFit, if_neg noAsterisk, ih Since.fresh,
        Sought, Sought, or_iff_right stuck]
      constructor
      · rintro (found | ⟨other, same, k, further, bounded, found⟩)
        · exact ⟨place, rfl, matched + 1, by omega, by omega, found⟩
        · cases same
          exact ⟨place, rfl, k, by omega, bounded, found⟩
      · rintro ⟨other, same, k, further, bounded, found⟩
        cases same
        by_cases next : k = matched + 1
        · exact Or.inl (next ▸ found)
        · exact Or.inr ⟨place, rfl, k, by omega, bounded, found⟩
  | case4 p t matched behind inside noFit noAsterisk =>
      rw [globLoop.eq_def, if_pos inside, if_neg noFit, if_neg noAsterisk]
      refine iff_of_false nofun ?_
      rintro (found | ⟨place, none, _⟩)
      · exact not_matches_of_stuck inside noFit noAsterisk found
      · cases none
  | case5 p t star matched behind atEnd =>
      rw [globLoop.eq_def, if_neg atEnd, sought_of_end atEnd since, matches_nil_text]

/-- `globMatch` returns, and it returns true exactly when the text splits into pieces that
fit the pattern. Names hold no asterisk. -/
theorem globMatch_iff (noStar : asterisk ∉ text) :
    globMatch pattern text = true ↔ Matches Fits pattern text := by
  have since : Since pattern 0 0 none 0 := nofun
  rw [globMatch, globLoop_iff noStar 0 0 none 0 (Nat.le_refl 0) since, Sought]
  constructor
  · rintro (found | ⟨place, none, _⟩)
    · exact found
    · cases none
  · exact Or.inl

end Loop

/-- The asterisk is the second piece. -/
theorem globMatch_iff_track : globMatch (utf8 "T*k?") (utf8 "TrackX") = true := by
  have known : utf8 "T*k?" = [0x54, asterisk, 0x6b, questionMark] ∧
      utf8 "TrackX" = [0x54, 0x72, 0x61, 0x63, 0x6b, 0x58] := by decide
  rw [known.1, known.2]
  refine (globMatch_iff (by decide)).mpr ⟨[[0x54], [0x72, 0x61, 0x63], [0x6b], [0x58]], ?_, rfl⟩
  refine .cons ?_ (.cons (star_asterisk _) (.cons ?_ (.cons ?_ .nil)))
  all_goals exact (fits_singleton (by decide)).mpr (by decide)

end Arcal.Lacal
