import Arcal.Base.Value
import Arcal.Lib.Verdict

/-! What can be wrong with an input, and which exception tells of it. -/

namespace Arcal

/-- An input is refused with a message, or it is a UUID text that looks right and has an
octet `std::stoul` finds no digit in. -/
inductive Fault
  | rejected
  | digitless
  deriving DecidableEq, Repr

def Fault.Thrown : Fault → Exc → Prop
  | .rejected, .uciException _ => True
  | .digitless, .invalidArgument _ => True
  | _, _ => False

namespace UUID

/-- What `fromString` checks: the length, four hyphens in place and no other hyphen. -/
def Shaped (str : Bytes) : Prop :=
  str.length = 36 ∧ str[8]? = some hyphen ∧ str[13]? = some hyphen ∧ str[18]? = some hyphen ∧
    str[23]? = some hyphen ∧ (str.filter (· ≠ hyphen)).length = 32

instance (str : Bytes) : Decidable (Shaped str) := inferInstanceAs (Decidable (_ ∧ _))

/-- The two characters of an octet hold a digit where `std::stoul` looks for one: first, or
behind a blank or a sign. -/
def startsNumber (hi lo : UInt8) : Bool :=
  (Hex.value hi).isSome || ((isSpace hi || hi == 0x2b || hi == 0x2d) && (Hex.value lo).isSome)

def readable : Bytes → Bool
  | hi :: lo :: rest => startsNumber hi lo && readable rest
  | _ => true

def check (str : Bytes) : Except Fault Unit :=
  if Shaped str then
    if readable (str.filter (· ≠ hyphen)) then .ok () else .error .digitless
  else .error .rejected

theorem digit_not_blank {c : UInt8} (digit : (Hex.value c).isSome = true) :
    isSpace c = false ∧ c ≠ 0x2b ∧ c ≠ 0x2d := by
  have all : ∀ k : Fin 256, (Hex.value (UInt8.ofNat k)).isSome = true →
      isSpace (UInt8.ofNat k) = false ∧ UInt8.ofNat k ≠ 0x2b ∧ UInt8.ofNat k ≠ 0x2d := by
    decide +kernel
  have here := all ⟨c.toNat, c.toNat_lt⟩
  rw [UInt8.ofNat_toNat] at here
  exact here digit

theorem stoul16_two (hi lo : UInt8) :
    if startsNumber hi lo then ∃ n, stoul16 [hi, lo] = .ok n
    else stoul16 [hi, lo] = .error (.invalidArgument (utf8 "stoul")) := by
  cases first : Hex.value hi with
  | some h =>
      rcases digit_not_blank (by rw [first]; rfl) with ⟨noBlank, noPlus, noMinus⟩
      have small := Hex.value_lt first
      cases second : Hex.value lo with
      | some l =>
          have small' := Hex.value_lt second
          have fits : ¬ 18446744073709551616 ≤ h * 16 + l := by omega
          simp [startsNumber, stoul16, first, second, noBlank, noPlus, noMinus, fits]
      | none =>
          have fits : ¬ 18446744073709551616 ≤ h := by omega
          simp [startsNumber, stoul16, first, second, noBlank, noPlus, noMinus, fits]
  | none =>
      cases second : Hex.value lo with
      | some l =>
          rcases digit_not_blank (by rw [second]; rfl) with ⟨noBlank, noPlus, noMinus⟩
          have small := Hex.value_lt second
          have fits : ¬ 18446744073709551616 ≤ l := by omega
          by_cases blank : isSpace hi = true
          · simp [startsNumber, stoul16, first, second, blank, noBlank, noPlus, noMinus, fits]
          · by_cases sign : hi = 0x2b
            · subst sign
              simp [startsNumber, stoul16, second, blank, fits]
            · by_cases minus : hi = 0x2d
              · subst minus
                simp [startsNumber, stoul16, second, blank, fits]
              · simp [startsNumber, stoul16, first, blank, sign, minus]
      | none =>
          by_cases blank : isSpace hi = true
          · by_cases blank' : isSpace lo = true
            · simp [startsNumber, stoul16, first, second, blank, blank']
            · by_cases sign : lo = 0x2b ∨ lo = 0x2d
              · simp [startsNumber, stoul16, first, second, blank, blank', sign]
              · simp [startsNumber, stoul16, first, second, blank, blank', sign]
          · by_cases sign : hi = 0x2b ∨ hi = 0x2d
            · simp [startsNumber, stoul16, first, second, blank, sign]
            · simp [startsNumber, stoul16, first, second, blank, sign]

theorem parseOctets_ends (hex : Bytes) :
    if readable hex then ∃ octets, parseOctets hex = .ok octets
    else parseOctets hex = .error (.invalidArgument (utf8 "stoul")) := by
  fun_induction readable hex with
  | case1 hi lo rest ih =>
      have here := stoul16_two hi lo
      by_cases starts : startsNumber hi lo = true
      · rw [if_pos starts] at here
        rcases here with ⟨n, octet⟩
        simp only [starts, Bool.true_and, parseOctets, octet, bind, Except.bind]
        by_cases later : readable rest = true
        · rw [if_pos later] at ih ⊢
          rcases ih with ⟨octets, run⟩
          exact ⟨_, by rw [run]; rfl⟩
        · rw [if_neg later] at ih ⊢
          rw [ih]
      · rw [if_neg starts] at here
        simp only [eq_false_of_ne_true starts, Bool.false_and, Bool.false_eq_true, if_false,
          parseOctets, here, bind, Except.bind]
  | case2 hex short =>
      rw [if_pos rfl]
      match hex, short with
      | [], _ => exact ⟨[], rfl⟩
      | [_], _ => exact ⟨[], rfl⟩
      | hi :: lo :: rest, short => exact absurd rfl (short hi lo rest)

theorem fromString_agree (str : Bytes) :
    Verdict.Agree Fault.Thrown (fun _ _ => True) (fromString str) (check str) := by
  unfold fromString check
  split
  · next malformed =>
    have unshaped : ¬ Shaped str := by
      intro shaped
      rcases shaped with ⟨total, first, second, third, fourth, _⟩
      rcases malformed with bad | bad | bad | bad | bad
      · exact bad total
      · exact bad first
      · exact bad second
      · exact bad third
      · exact bad fourth
    rw [if_neg unshaped]
    trivial
  · next formed =>
    have octets := parseOctets_ends (str.filter (· ≠ hyphen))
    by_cases sized : (str.filter (· ≠ hyphen)).length = 32
    · have shaped : Shaped str := by
        simp only [not_or, not_not] at formed
        exact ⟨formed.1, formed.2.1, formed.2.2.1, formed.2.2.2.1, formed.2.2.2.2, sized⟩
      rw [if_pos shaped]
      simp only [dif_pos sized]
      by_cases digits : readable (str.filter (· ≠ hyphen)) = true
      · rw [if_pos digits] at octets ⊢
        rcases octets with ⟨parsed, run⟩
        split
        · trivial
        · next e again =>
          rw [run] at again
          cases again
      · rw [if_neg digits] at octets ⊢
        split
        · next parsed again =>
          rw [octets] at again
          cases again
        · next e again =>
          rw [octets] at again
          rw [← Except.error.inj again]
          trivial
    · have unshaped : ¬ Shaped str := fun shaped => sized shaped.2.2.2.2.2
      rw [if_neg unshaped]
      simp only [dif_neg sized]
      trivial

end UUID

end Arcal
