import Mathlib
import Arcal.Schema.Model

/-! The enumerators of a generated enum class. The values are folded character by character, so
two of them can become one, and a character that no replacement knows stays as it is. -/

namespace Arcal.Compiler

/-- What `str.isdigit` and the C++ compiler know about characters, besides their case. -/
structure CharTable extends Schema.CaseTable where
  isDigit : Char → Bool
  starts : Char → Bool
  continues : Char → Bool
  isDigit_ascii : ∀ c, c.val < 128 → isDigit c = c.isDigit
  starts_ascii : ∀ c, c.val < 128 → starts c = (c.isAlpha || c == '_')
  continues_ascii : ∀ c, c.val < 128 → continues c = (c.isAlphanum || c == '_')

def replaceChar (text : String) (ch : Char) (rep : String) : String :=
  String.ofList (text.toList.flatMap fun c => if c = ch then rep.toList else [c])

def replacements : List (Char × String) :=
  [('-', "_"), ('.', "_"), (' ', "_"), ('/', "_"), ('(', "_"), (')', "")]

def upperText (t : CharTable) (value : String) : String :=
  String.ofList (value.toList.flatMap t.upper)

def sanitizeEnum (t : CharTable) (value : String) : String :=
  let result := replacements.foldl (fun text (ch, rep) => replaceChar text ch rep)
    (upperText t value)
  match result.toList with
  | [] => "EMPTY"
  | first :: _ => if t.isDigit first then "E_" ++ result else result

/-- `EnumerationItem` in `ENUM_H_TEMPLATE` -/
def enumerationItems (t : CharTable) (enumValues : List String) : List String :=
  "enumNotSet" :: enumValues.map (sanitizeEnum t) ++ ["enumMaxExclusive"]

def cxxKeywords : List String :=
  ["alignas", "alignof", "and", "and_eq", "asm", "auto", "bitand", "bitor", "bool", "break",
   "case", "catch", "char", "char16_t", "char32_t", "class", "compl", "const", "constexpr",
   "const_cast", "continue", "decltype", "default", "delete", "do", "double", "dynamic_cast",
   "else", "enum", "explicit", "export", "extern", "false", "float", "for", "friend", "goto",
   "if", "inline", "int", "long", "mutable", "namespace", "new", "noexcept", "not", "not_eq",
   "nullptr", "operator", "or", "or_eq", "private", "protected", "public", "register",
   "reinterpret_cast", "return", "short", "signed", "sizeof", "static", "static_assert",
   "static_cast", "struct", "switch", "template", "this", "thread_local", "throw", "true",
   "try", "typedef", "typeid", "typename", "union", "unsigned", "using", "virtual", "void",
   "volatile", "wchar_t", "while", "xor", "xor_eq"]

/-- An identifier: a letter or an underscore first, and no keyword. -/
structure Identifier (t : CharTable) (name : String) : Prop where
  spelt : ∃ first rest, name.toList = first :: rest ∧ t.starts first = true ∧
    ∀ c ∈ rest, t.continues c = true
  plain : name ∉ cxxKeywords

structure ValidEnumerators (t : CharTable) (enumValues : List String) : Prop where
  identifiers : ∀ item ∈ enumerationItems t enumValues, Identifier t item
  distinct : (enumerationItems t enumValues).Nodup

def foldChar (c : Char) : List Char :=
  if c = ')' then []
  else if c ∈ ['-', '.', ' ', '/', '('] then ['_']
  else [c]

/-- A value in upper case, punctuation folded. -/
def folded (t : CharTable) (value : String) : List Char :=
  (value.toList.flatMap t.upper).flatMap foldChar

/-- The folded text can be spelt in an identifier, after `E_` if it starts with a digit. -/
def Spelt (t : CharTable) : List Char → Prop
  | [] => True
  | first :: rest =>
      (if t.isDigit first then t.continues first = true else t.starts first = true) ∧
        ∀ c ∈ rest, t.continues c = true

/-- Two folded texts for one identifier: the same text twice, a text and what is put in the
place of nothing, or a text with a digit first and what that is turned into. -/
inductive Clash (t : CharTable) : List Char → List Char → Prop
  | same (text : List Char) : Clash t text text
  | empty : Clash t [] "EMPTY".toList
  | digit (first : Char) (rest : List Char) : t.isDigit first = true →
      Clash t (first :: rest) ('E' :: '_' :: first :: rest)

/-- Each value folds to what an identifier can hold, and no two values clash. -/
structure Enumerable (t : CharTable) (enumValues : List String) : Prop where
  spelt : ∀ value ∈ enumValues, Spelt t (folded t value)
  apart : ∀ value ∈ enumValues, ∀ other ∈ enumValues, value ≠ other →
    ¬ Clash t (folded t value) (folded t other)

section Filter

variable (t : CharTable)

theorem replaceChar_toList (text : String) (ch : Char) (rep : String) :
    (replaceChar text ch rep).toList =
      text.toList.flatMap fun c => if c = ch then rep.toList else [c] := by
  simp [replaceChar]

/-- None of the replacements meets what another one has put in. -/
theorem replacements_toList (text : String) :
    (replacements.foldl (fun text (ch, rep) => replaceChar text ch rep) text).toList =
      text.toList.flatMap foldChar := by
  simp only [replacements, List.foldl_cons, List.foldl_nil, replaceChar_toList,
    List.flatMap_assoc]
  congr 1
  funext c
  by_cases folds : c ∈ ['-', '.', ' ', '/', '(', ')']
  · simp only [List.mem_cons, List.not_mem_nil, or_false] at folds
    rcases folds with rfl | rfl | rfl | rfl | rfl | rfl
    · rfl
    · rfl
    · rfl
    · rfl
    · rfl
    · rfl
  · simp only [List.mem_cons, List.not_mem_nil, or_false, not_or] at folds
    simp [foldChar, folds]

/-- The filter, on the folded text. -/
def enumerator : List Char → List Char
  | [] => "EMPTY".toList
  | first :: rest => if t.isDigit first then 'E' :: '_' :: first :: rest else first :: rest

theorem sanitizeEnum_toList (value : String) :
    (sanitizeEnum t value).toList = enumerator t (folded t value) := by
  have folding : (replacements.foldl (fun text (ch, rep) => replaceChar text ch rep)
      (upperText t value)).toList = folded t value := by
    rw [replacements_toList, upperText, String.toList_ofList]
    rfl
  unfold sanitizeEnum
  dsimp only
  rw [folding]
  cases text : folded t value with
  | nil => rfl
  | cons first rest =>
      rw [enumerator]
      dsimp only
      split
      · rw [String.toList_append, folding, text]
        rfl
      · rw [folding, text]

end Filter

section Case

variable {t : CharTable}

theorem isLower_foldChar {c d : Char} (upper : c.isLower = false) (member : d ∈ foldChar c) :
    d.isLower = false := by
  unfold foldChar at member
  split at member
  · cases member
  · split at member
    · rw [List.mem_singleton.mp member]
      rfl
    · rw [List.mem_singleton.mp member]
      exact upper

theorem isLower_sanitizeEnum (value : String) : ∀ d ∈ (sanitizeEnum t value).toList,
    d.isLower = false := by
  have text : ∀ d ∈ folded t value, d.isLower = false := by
    intro d member
    rcases List.mem_flatMap.mp member with ⟨c, inside, folds⟩
    rcases List.mem_flatMap.mp inside with ⟨given, _, raised⟩
    exact isLower_foldChar (t.upper_isLower given c raised) folds
  rw [sanitizeEnum_toList]
  intro d member
  cases is : folded t value with
  | nil =>
      rw [is] at member
      have letters : ("EMPTY".toList.all fun d => !d.isLower) = true := by decide
      simpa using List.all_eq_true.mp letters d member
  | cons first rest =>
      rw [is] at member text
      rw [enumerator] at member
      split at member
      · rcases List.mem_cons.mp member with rfl | member
        · rfl
        · rcases List.mem_cons.mp member with rfl | member
          · rfl
          · exact text d member
      · exact text d member

/-- The two enumerators that are always there, and all keywords, have a letter in lower case. -/
theorem sanitizeEnum_ne {name : String} (value : String)
    (lower : name.toList.any Char.isLower = true) : sanitizeEnum t value ≠ name := by
  intro same
  rcases List.any_eq_true.mp lower with ⟨d, member, isLower⟩
  rw [← same] at member
  rw [isLower_sanitizeEnum value d member] at isLower
  cases isLower

theorem lower_keyword : ∀ keyword ∈ cxxKeywords, keyword.toList.any Char.isLower = true := by
  decide +kernel

end Case

section Spelling

variable {t : CharTable}

theorem starts_of_ascii {c : Char} (ascii : c.val < 128)
    (letter : (c.isAlpha || c == '_') = true) : t.starts c = true :=
  (t.starts_ascii c ascii).trans letter

theorem continues_of_ascii {c : Char} (ascii : c.val < 128)
    (letter : (c.isAlphanum || c == '_') = true) : t.continues c = true :=
  (t.continues_ascii c ascii).trans letter

theorem identifier_of_letters {name : String} {first : Char} {rest : List Char}
    (text : name.toList = first :: rest)
    (letters : (first :: rest).all (fun c => c.val < 128 && c.isAlpha) = true)
    (plain : name ∉ cxxKeywords) : Identifier t name := by
  have each : ∀ c ∈ first :: rest, c.val < 128 ∧ c.isAlpha = true := by simpa using letters
  refine ⟨⟨first, rest, text, ?_, ?_⟩, plain⟩
  · have head := each first (by simp)
    exact starts_of_ascii head.1 (by simp [head.2])
  · intro c member
    have later := each c (List.mem_cons_of_mem _ member)
    exact continues_of_ascii later.1 (by simp [Char.isAlphanum, later.2])

theorem spelt_iff {text : List Char} : Spelt t text ↔ ∃ first rest,
    enumerator t text = first :: rest ∧ t.starts first = true ∧
      ∀ c ∈ rest, t.continues c = true := by
  cases text with
  | nil =>
      have letters : ∀ c ∈ ['M', 'P', 'T', 'Y'], t.continues c = true := by
        intro c member
        simp only [List.mem_cons, List.not_mem_nil, or_false] at member
        rcases member with rfl | rfl | rfl | rfl
        · exact continues_of_ascii (by decide) (by decide)
        · exact continues_of_ascii (by decide) (by decide)
        · exact continues_of_ascii (by decide) (by decide)
        · exact continues_of_ascii (by decide) (by decide)
      constructor
      · intro _
        exact ⟨'E', ['M', 'P', 'T', 'Y'], rfl, starts_of_ascii (by decide) (by decide), letters⟩
      · intro _
        trivial
  | cons first rest =>
      rw [enumerator, Spelt]
      split
      · constructor
        · intro spelt
          refine ⟨'E', '_' :: first :: rest, rfl, starts_of_ascii (by decide) (by decide), ?_⟩
          intro c member
          rcases List.mem_cons.mp member with rfl | member
          · exact continues_of_ascii (by decide) (by decide)
          · rcases List.mem_cons.mp member with rfl | member
            · exact spelt.1
            · exact spelt.2 c member
        · intro given
          rcases given with ⟨_, _, ⟨⟩, _, follow⟩
          exact ⟨follow first (by simp), fun c member => follow c (by simp [member])⟩
      · constructor
        · intro spelt
          exact ⟨first, rest, rfl, spelt.1, spelt.2⟩
        · intro given
          rcases given with ⟨_, _, ⟨⟩, starts, follow⟩
          exact ⟨starts, follow⟩

theorem identifier_iff (value : String) :
    Identifier t (sanitizeEnum t value) ↔ Spelt t (folded t value) := by
  rw [spelt_iff, ← sanitizeEnum_toList]
  constructor
  · intro identifier
    exact identifier.spelt
  · intro spelt
    exact ⟨spelt, fun keyword => sanitizeEnum_ne value (lower_keyword _ keyword) rfl⟩

end Spelling

section Clashes

variable {t : CharTable}

theorem isDigit_E : t.isDigit 'E' = false :=
  (t.isDigit_ascii 'E' (by decide)).trans (by decide)

theorem enumerator_of_clash {text other : List Char} (clash : Clash t text other) :
    enumerator t text = enumerator t other := by
  cases clash with
  | same => rfl
  | empty =>
      have letters : "EMPTY".toList = ['E', 'M', 'P', 'T', 'Y'] := by decide
      simp [enumerator, letters, isDigit_E]
  | digit first rest digit => simp [enumerator, digit, isDigit_E]

theorem clash_of_enumerator {text other : List Char}
    (same : enumerator t text = enumerator t other) : Clash t text other ∨ Clash t other text := by
  have letters : "EMPTY".toList = ['E', 'M', 'P', 'T', 'Y'] := by decide
  cases text with
  | nil =>
      cases other with
      | nil => exact .inl (.same [])
      | cons first rest =>
          rw [enumerator, enumerator] at same
          split at same
          · rw [letters] at same
            cases same
          · exact .inl (same ▸ .empty)
  | cons first rest =>
      cases other with
      | nil =>
          rw [enumerator, enumerator] at same
          split at same
          · rw [letters] at same
            cases same
          · exact .inr (same ▸ .empty)
      | cons first' rest' =>
          rw [enumerator, enumerator] at same
          split at same
          · next digit =>
            split at same
            · cases same
              exact .inl (.same _)
            · exact .inl (same ▸ .digit first rest digit)
          · split at same
            · next digit => exact .inr (same ▸ .digit first' rest' digit)
            · exact .inl (same ▸ .same _)

theorem sanitizeEnum_eq_iff (value other : String) :
    sanitizeEnum t value = sanitizeEnum t other ↔
      Clash t (folded t value) (folded t other) ∨ Clash t (folded t other) (folded t value) := by
  rw [← String.toList_inj, sanitizeEnum_toList, sanitizeEnum_toList]
  constructor
  · exact clash_of_enumerator
  · intro clash
    rcases clash with clash | clash
    · exact enumerator_of_clash clash
    · exact (enumerator_of_clash clash).symm

theorem nodup_enumerationItems_iff (enumValues : List String) :
    (enumerationItems t enumValues).Nodup ↔ (enumValues.map (sanitizeEnum t)).Nodup := by
  have apart : ∀ name, name.toList.any Char.isLower = true →
      name ∉ enumValues.map (sanitizeEnum t) := by
    intro name lower member
    rcases List.mem_map.mp member with ⟨value, _, same⟩
    exact sanitizeEnum_ne value lower same
  have first := apart "enumNotSet" (by decide)
  have last := apart "enumMaxExclusive" (by decide)
  unfold enumerationItems
  constructor
  · intro distinct
    exact (List.nodup_append.mp (List.nodup_cons.mp distinct).2).1
  · intro distinct
    apply List.nodup_cons.mpr
    refine ⟨?_, ?_⟩
    · intro member
      rcases List.mem_append.mp member with member | member
      · exact first member
      · exact absurd (List.mem_singleton.mp member) (by decide)
    · apply List.nodup_append.mpr
      refine ⟨distinct, by simp, ?_⟩
      intro name inside other member same
      rw [List.mem_singleton.mp member] at same
      exact last (same ▸ inside)

/-- The enumerators are distinct identifiers exactly when no value folds to something else. -/
theorem validEnumerators_iff (t : CharTable) {enumValues : List String}
    (distinct : enumValues.Nodup) : ValidEnumerators t enumValues ↔ Enumerable t enumValues := by
  have apart : (enumValues.map (sanitizeEnum t)).Nodup ↔ ∀ value ∈ enumValues,
      ∀ other ∈ enumValues, value ≠ other → ¬ Clash t (folded t value) (folded t other) := by
    rw [List.nodup_map_iff_inj_on distinct]
    constructor
    · intro injective value inside other inside' differ clash
      exact differ (injective value inside other inside'
        ((sanitizeEnum_eq_iff value other).mpr (.inl clash)))
    · intro noClash value inside other inside' same
      by_contra differ
      rcases (sanitizeEnum_eq_iff value other).mp same with clash | clash
      · exact noClash value inside other inside' differ clash
      · exact noClash other inside' value inside (Ne.symm differ) clash
  constructor
  · intro valid
    refine ⟨?_, apart.mp ((nodup_enumerationItems_iff enumValues).mp valid.distinct)⟩
    intro value inside
    apply (identifier_iff value).mp
    apply valid.identifiers
    exact List.mem_append_left _ (List.mem_cons_of_mem _ (List.mem_map_of_mem inside))
  · intro enumerable
    refine ⟨?_, (nodup_enumerationItems_iff enumValues).mpr (apart.mpr enumerable.apart)⟩
    intro item member
    rcases List.mem_append.mp member with member | member
    · rcases List.mem_cons.mp member with rfl | member
      · exact identifier_of_letters rfl (by decide) (by decide +kernel)
      · rcases List.mem_map.mp member with ⟨value, inside, rfl⟩
        exact (identifier_iff value).mpr (enumerable.spelt value inside)
    · rw [List.mem_singleton.mp member]
      exact identifier_of_letters rfl (by decide) (by decide +kernel)

end Clashes

section Samples

/-- Characters beyond ASCII have one case and stand in no identifier. -/
def asciiTable : CharTable where
  upper c := [c.toUpper]
  lower c := [c.toLower]
  isDigit := Char.isDigit
  starts c := c.isAlpha || c == '_'
  continues c := c.isAlphanum || c == '_'
  upper_ascii _ _ := rfl
  lower_ascii _ _ := rfl
  upper_ne_nil _ := List.cons_ne_nil _ _
  upper_isLower c d member := by
    rw [List.mem_singleton.mp member]
    exact Char.isLower_toUpper_eq_false c
  isDigit_ascii _ _ := rfl
  starts_ascii _ _ := rfl
  continues_ascii _ _ := rfl

theorem validEnumerators_modes : ValidEnumerators asciiTable ["2-way", "Off"] := by
  have both : folded asciiTable "2-way" = ['2', '_', 'W', 'A', 'Y'] ∧
      folded asciiTable "Off" = ['O', 'F', 'F'] := by decide +kernel
  apply (validEnumerators_iff asciiTable (by decide)).mpr
  refine ⟨?_, ?_⟩
  · intro value member
    simp only [List.mem_cons, List.not_mem_nil, or_false] at member
    rcases member with rfl | rfl
    · rw [both.1]
      exact ⟨by decide, List.all_eq_true.mp (by decide)⟩
    · rw [both.2]
      exact ⟨by decide, List.all_eq_true.mp (by decide)⟩
  · intro value member other member' differ clash
    simp only [List.mem_cons, List.not_mem_nil, or_false] at member member'
    rcases member with rfl | rfl
    · rcases member' with rfl | rfl
      · exact differ rfl
      · rw [both.1, both.2] at clash
        cases clash
    · rcases member' with rfl | rfl
      · rw [both.1, both.2] at clash
        cases clash
      · exact differ rfl

theorem milli_and_mega_collide : ¬ ValidEnumerators asciiTable ["m", "M"] := by
  intro valid
  have twice : enumerationItems asciiTable ["m", "M"] =
      ["enumNotSet", "M", "M", "enumMaxExclusive"] := by decide +kernel
  have distinct := valid.distinct
  rw [twice] at distinct
  exact absurd distinct (by decide)

end Samples

end Arcal.Compiler
