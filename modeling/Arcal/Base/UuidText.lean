import Arcal.Base.Fault

/-! What `UUID::fromString` takes, beside what a UUID text is. -/

namespace Arcal.UUID

/-- Groups of 8, 4, 4, 4 and 12 hexadecimal digits with a hyphen between them. -/
inductive Written : Bytes → Bytes → Prop
  | groups (a b c d e : Bytes) (sizes : a.length = 8 ∧ b.length = 4 ∧ c.length = 4 ∧
        d.length = 4 ∧ e.length = 12)
      (digits : ∀ x ∈ a ++ (b ++ (c ++ (d ++ e))), (Hex.value x).isSome = true) :
      Written (a ++ hyphen :: (b ++ hyphen :: (c ++ hyphen :: (d ++ hyphen :: e))))
        (a ++ (b ++ (c ++ (d ++ e))))

def Spells (digits octets : Bytes) : Prop :=
  ∀ i < octets.length, ∃ hi lo octet, digits[2 * i]? = some hi ∧ digits[2 * i + 1]? = some lo ∧
    octets[i]? = some octet ∧ Hex.value hi = some (octet.toNat / 16) ∧
    Hex.value lo = some (octet.toNat % 16)

/-- The text is taken exactly when it is a UUID text, and then as the octets it spells. -/
def ReadsExactly (str : Bytes) : Prop :=
  ((∃ uuid, fromString str = .ok uuid) ↔ ∃ digits, Written str digits) ∧
    ∀ uuid digits, fromString str = .ok uuid → Written str digits → Spells digits uuid.octets

/-- What `fromString` looks for digits in. -/
def hexOf (str : Bytes) : Bytes := str.filter (· ≠ hyphen)

section Shape

theorem cut_at {str : Bytes} {i : Nat} {c : UInt8} (found : str[i]? = some c) :
    str = str.take i ++ c :: str.drop (i + 1) := by
  obtain ⟨inside, same⟩ := List.getElem?_eq_some_iff.mp found
  rw [← same, ← List.drop_eq_getElem_cons inside, List.take_append_drop]

theorem hexOf_hyphen (group rest : Bytes) : hexOf (group ++ hyphen :: rest) =
    hexOf group ++ hexOf rest := by
  rw [hexOf, List.filter_append, List.filter_cons_of_neg (by simp)]
  rfl

theorem getElem?_hyphen {group rest : Bytes} {n : Nat} (size : group.length = n) :
    (group ++ hyphen :: rest)[n]? = some hyphen := by
  subst size
  rw [List.getElem?_append_right (Nat.le_refl _), Nat.sub_self, List.getElem?_cons_zero]

theorem getElem?_behind {group rest : Bytes} {n : Nat} (size : group.length = n) (k : Nat) :
    (group ++ hyphen :: rest)[n + 1 + k]? = rest[k]? := by
  subst size
  have next : group.length + 1 + k - group.length = k + 1 := by omega
  rw [List.getElem?_append_right (by omega), next, List.getElem?_cons_succ]

theorem hexOf_digits {group : Bytes} (digits : ∀ x ∈ group, (Hex.value x).isSome = true) :
    hexOf group = group := by
  refine List.filter_eq_self.mpr fun x member => ?_
  have digit := digit_not_blank (digits x member)
  exact decide_eq_true digit.2.2

theorem Written.hexOf_eq {str digits : Bytes} (written : Written str digits) :
    hexOf str = digits := by
  cases written with
  | groups a b c d e sizes digits =>
      simp only [List.mem_append] at digits
      rw [hexOf_hyphen, hexOf_hyphen, hexOf_hyphen, hexOf_hyphen,
        hexOf_digits fun x member => digits x (.inl member),
        hexOf_digits fun x member => digits x (.inr (.inl member)),
        hexOf_digits fun x member => digits x (.inr (.inr (.inl member))),
        hexOf_digits fun x member => digits x (.inr (.inr (.inr (.inl member)))),
        hexOf_digits fun x member => digits x (.inr (.inr (.inr (.inr member))))]

theorem Written.digits_all {str digits : Bytes} (written : Written str digits) :
    ∀ x ∈ digits, (Hex.value x).isSome = true := by
  cases written with
  | groups a b c d e sizes digits => exact digits

theorem Written.shaped {str digits : Bytes} (written : Written str digits) : Shaped str := by
  have whole : (str.filter (· ≠ hyphen)) = digits := written.hexOf_eq
  cases written with
  | groups a b c d e sizes _ =>
      obtain ⟨first, second, third, fourth, fifth⟩ := sizes
      refine ⟨?_, ?_, ?_, ?_, ?_, ?_⟩
      · simp only [List.length_append, List.length_cons]
        omega
      · exact getElem?_hyphen first
      · exact (getElem?_behind first 4).trans (getElem?_hyphen second)
      · exact (getElem?_behind first 9).trans
          ((getElem?_behind second 4).trans (getElem?_hyphen third))
      · exact (getElem?_behind first 14).trans ((getElem?_behind second 9).trans
          ((getElem?_behind third 4).trans (getElem?_hyphen fourth)))
      · rw [whole]
        simp only [List.length_append]
        omega

theorem groups_of_marks {str : Bytes} (total : str.length = 36) (first : str[8]? = some hyphen)
    (second : str[13]? = some hyphen) (third : str[18]? = some hyphen)
    (fourth : str[23]? = some hyphen) :
    ∃ a b c d e : Bytes,
      str = a ++ hyphen :: (b ++ hyphen :: (c ++ hyphen :: (d ++ hyphen :: e))) ∧
      a.length = 8 ∧ b.length = 4 ∧ c.length = 4 ∧ d.length = 4 ∧ e.length = 12 := by
  refine ⟨str.take 8, (str.drop 9).take 4, (str.drop 14).take 4, (str.drop 19).take 4,
    str.drop 24, ?_, ?_⟩
  · have later : ∀ i k c, str[i + k]? = some c →
        str.drop i = (str.drop i).take k ++ c :: str.drop (i + k + 1) := by
      intro i k c found
      have inner : (str.drop i)[k]? = some c := by rw [List.getElem?_drop, found]
      have cut := cut_at inner
      rwa [List.drop_drop] at cut
    have behind : ∀ (group : Bytes) {rest rest' : Bytes}, rest = rest' →
        group ++ hyphen :: rest = group ++ hyphen :: rest' := fun group _ _ same => by rw [same]
    calc
      str = str.take 8 ++ hyphen :: str.drop 9 := cut_at first
      _ = _ := behind _ (later 9 4 _ second)
      _ = _ := behind _ (behind _ (later 14 4 _ third))
      _ = _ := behind _ (behind _ (behind _ (later 19 4 _ fourth)))
  · simp only [List.length_take, List.length_drop, total]
    decide

theorem written_of_shaped {str : Bytes} (shaped : Shaped str)
    (digits : ∀ x ∈ hexOf str, (Hex.value x).isSome = true) : Written str (hexOf str) := by
  obtain ⟨total, first, second, third, fourth, sized⟩ := shaped
  obtain ⟨a, b, c, d, e, rfl, sizes⟩ := groups_of_marks total first second third fourth
  have fewer : ∀ group : Bytes, (hexOf group).length ≤ group.length := fun group =>
    List.length_filter_le _ _
  have whole : ∀ group : Bytes, (hexOf group).length = group.length → hexOf group = group :=
    fun group same => List.filter_eq_self.mpr fun x member =>
      List.length_filter_eq_length_iff.mp same x member
  have text : hexOf (a ++ hyphen :: (b ++ hyphen :: (c ++ hyphen :: (d ++ hyphen :: e)))) =
      hexOf a ++ (hexOf b ++ (hexOf c ++ (hexOf d ++ hexOf e))) := by
    rw [hexOf_hyphen, hexOf_hyphen, hexOf_hyphen, hexOf_hyphen]
  have lengths := congrArg List.length text
  rw [hexOf, sized] at lengths
  simp only [List.length_append] at lengths
  have fewerA := fewer a
  have fewerB := fewer b
  have fewerC := fewer c
  have fewerD := fewer d
  have fewerE := fewer e
  rw [whole a (by omega), whole b (by omega), whole c (by omega), whole d (by omega),
    whole e (by omega)] at text
  rw [text] at digits ⊢
  exact .groups a b c d e sizes digits

end Shape

section Octets

theorem stoul16_digits {hi lo : UInt8} {h l : Nat} (first : Hex.value hi = some h)
    (second : Hex.value lo = some l) : stoul16 [hi, lo] = .ok (h * 16 + l) := by
  have small := Hex.value_lt first
  have small' := Hex.value_lt second
  obtain ⟨noBlank, noPlus, noMinus⟩ := digit_not_blank (c := hi) (by rw [first]; rfl)
  have fits : ¬ 18446744073709551616 ≤ h * 16 + l := by omega
  simp [stoul16, first, second, noBlank, noPlus, noMinus, fits]

theorem spells_parseOctets {digits octets : Bytes}
    (all : ∀ x ∈ digits, (Hex.value x).isSome = true) (run : parseOctets digits = .ok octets) :
    Spells digits octets := by
  fun_induction parseOctets digits generalizing octets with
  | case1 hi lo rest ih =>
      obtain ⟨h, first⟩ := Option.isSome_iff_exists.mp (all hi (by simp))
      obtain ⟨l, second⟩ := Option.isSome_iff_exists.mp (all lo (by simp))
      have small := Hex.value_lt first
      have small' := Hex.value_lt second
      cases later : parseOctets rest with
      | error e =>
          simp [stoul16_digits first second, later, bind, Except.bind] at run
      | ok others =>
          simp only [stoul16_digits first second, later, bind, Except.bind, pure, Except.pure,
            Except.ok.injEq] at run
          subst run
          have octet : (UInt8.ofNat (h * 16 + l)).toNat = h * 16 + l := by
            rw [UInt8.toNat_ofNat', Nat.mod_eq_of_lt (by omega)]
          have spelled := ih (fun x member => all x (by simp [member])) later
          intro i inside
          cases i with
          | zero =>
              refine ⟨hi, lo, _, rfl, rfl, rfl, ?_, ?_⟩
              · rw [first, octet]
                congr 1
                omega
              · rw [second, octet]
                congr 1
                omega
          | succ i =>
              rw [List.length_cons] at inside
              exact spelled i (by omega)
  | case2 hex short =>
      injection run with empty
      subst empty
      exact fun i inside => absurd inside (Nat.not_lt_zero i)

theorem fromString_eq_ok {str : Bytes} {uuid : UUID} : fromString str = .ok uuid ↔
    Shaped str ∧ parseOctets (hexOf str) = .ok uuid.octets := by
  unfold fromString
  constructor
  · intro run
    split at run
    · cases run
    · next formed =>
      simp only [not_or, not_not] at formed
      obtain ⟨total, first, second, third, fourth⟩ := formed
      dsimp only at run
      split at run
      · next sized =>
        split at run
        · next octets parsed =>
          injection run with same
          subst same
          exact ⟨⟨total, first, second, third, fourth, sized⟩, parsed⟩
        · cases run
      · cases run
  · rintro ⟨⟨total, first, second, third, fourth, sized⟩, parsed⟩
    have formed : ¬ (str.length ≠ 36 ∨ str[8]? ≠ some hyphen ∨ str[13]? ≠ some hyphen ∨
        str[18]? ≠ some hyphen ∨ str[23]? ≠ some hyphen) := by
      simp only [not_or, not_not]
      exact ⟨total, first, second, third, fourth⟩
    rw [if_neg formed]
    simp only [dif_pos sized]
    split
    · next octets again =>
      have same : octets = uuid.octets := Except.ok.inj (again.symm.trans parsed)
      subst same
      rfl
    · next e again =>
      rw [hexOf, again] at parsed
      cases parsed

/-- A string is taken when it has the shape and a digit in each pair. -/
theorem fromString_ok_iff {str : Bytes} : (∃ uuid, fromString str = .ok uuid) ↔
    Shaped str ∧ readable (hexOf str) = true := by
  have ends := parseOctets_ends (hexOf str)
  constructor
  · rintro ⟨uuid, run⟩
    obtain ⟨shaped, parsed⟩ := fromString_eq_ok.mp run
    refine ⟨shaped, ?_⟩
    by_contra unreadable
    rw [if_neg unreadable, parsed] at ends
    cases ends
  · rintro ⟨shaped, digits⟩
    rw [if_pos digits] at ends
    obtain ⟨octets, parsed⟩ := ends
    have sixteen : octets.length = 16 := by
      rw [parseOctets_length parsed, hexOf, shaped.2.2.2.2.2]
    exact ⟨⟨octets, sixteen⟩, fromString_eq_ok.mpr ⟨shaped, parsed⟩⟩

theorem readable_digits {hex : Bytes} (all : ∀ x ∈ hex, (Hex.value x).isSome = true) :
    readable hex = true := by
  fun_induction readable hex with
  | case1 hi lo rest ih =>
      have first := all hi (by simp)
      rw [startsNumber, first, ih fun x member => all x (by simp [member])]
      rfl
  | case2 => rfl

end Octets

/-- Only a string of the right shape can be misread: one in which each pair has a digit where
`std::stoul` looks for one, but that holds something else as well. -/
theorem readsExactly_iff (str : Bytes) : ReadsExactly str ↔
    ¬ (Shaped str ∧ readable (hexOf str) = true ∧
      ¬ ∀ x ∈ hexOf str, (Hex.value x).isSome = true) := by
  constructor
  · rintro ⟨taken, _⟩ ⟨shaped, digits, stray⟩
    obtain ⟨hex, written⟩ := taken.mp (fromString_ok_iff.mpr ⟨shaped, digits⟩)
    rw [written.hexOf_eq] at stray
    exact stray written.digits_all
  · intro clean
    constructor
    · rw [fromString_ok_iff]
      constructor
      · rintro ⟨shaped, digits⟩
        have all : ∀ x ∈ hexOf str, (Hex.value x).isSome = true := by
          by_contra stray
          exact clean ⟨shaped, digits, stray⟩
        exact ⟨hexOf str, written_of_shaped shaped all⟩
      · rintro ⟨hex, written⟩
        refine ⟨written.shaped, readable_digits ?_⟩
        rw [written.hexOf_eq]
        exact written.digits_all
    · intro uuid hex run written
      obtain ⟨_, parsed⟩ := fromString_eq_ok.mp run
      rw [written.hexOf_eq] at parsed
      exact spells_parseOctets written.digits_all parsed

/-- One of the 36 characters is no digit, and `std::stoul` stops in front of it. -/
def strayText : Bytes := utf8 "6ba7b81g-9dad-11d1-80b4-00c04fd430c8"

theorem strayText_taken : ¬ ReadsExactly strayText := by
  rintro ⟨taken, _⟩
  have shaped : Shaped strayText := by decide +kernel
  have digits : readable (hexOf strayText) = true := by decide +kernel
  obtain ⟨hex, written⟩ := taken.mp (fromString_ok_iff.mpr ⟨shaped, digits⟩)
  have all := written.digits_all
  rw [← written.hexOf_eq] at all
  have member : (0x67 : UInt8) ∈ hexOf strayText := by decide +kernel
  exact absurd (all 0x67 member) (by decide)

end Arcal.UUID
