import Arcal.Lacal.Replies

/-! The two tokenizers of a command line: `splitFields` splits at white space of any kind,
`firstField` trims white space of four kinds and looks for a space. -/

namespace Arcal.Lacal

open JsonText (Value)

theorem splitFields_append (xs : Bytes) {c : UInt8} (white : UUID.isSpace c = true) (ys : Bytes) :
    splitFields (xs ++ c :: ys) = splitFields xs ++ splitFields ys := by
  rw [splitFields, List.splitOnP_append_cons xs ys white, List.filter_append]
  rfl

theorem splitFields_cons {c : UInt8} (white : UUID.isSpace c = true) (ys : Bytes) :
    splitFields (c :: ys) = splitFields ys := splitFields_append [] white ys

theorem splitFields_blanks_append {blanks : Bytes}
    (white : ∀ c ∈ blanks, UUID.isSpace c = true) (ys : Bytes) :
    splitFields (blanks ++ ys) = splitFields ys := by
  induction blanks with
  | nil => rfl
  | cons c rest ih =>
      rw [List.cons_append, splitFields_cons (white c List.mem_cons_self)]
      exact ih fun d inside => white d (List.mem_cons_of_mem _ inside)

theorem splitFields_blanks {blanks : Bytes} (white : ∀ c ∈ blanks, UUID.isSpace c = true) :
    splitFields blanks = [] := by
  have none' := splitFields_blanks_append white []
  rw [List.append_nil] at none'
  exact none'

theorem splitFields_append_blanks (xs : Bytes) {blanks : Bytes}
    (white : ∀ c ∈ blanks, UUID.isSpace c = true) :
    splitFields (xs ++ blanks) = splitFields xs := by
  cases blanks with
  | nil => rw [List.append_nil]
  | cons c rest =>
      have later := splitFields_blanks fun d inside => white d (List.mem_cons_of_mem c inside)
      rw [splitFields_append xs (white c List.mem_cons_self), later, List.append_nil]

def IsField (field : Bytes) : Prop := field ≠ [] ∧ ∀ c ∈ field, UUID.isSpace c = false

theorem splitFields_word {word : Bytes} (field : IsField word) : splitFields word = [word] := by
  rw [splitFields, List.splitOnP_eq_singleton field.2]
  simp [field.1]

theorem isField_of_splitFields {line field : Bytes} (member : field ∈ splitFields line) :
    IsField field := by
  have pieces : ∀ s : Bytes, ∀ piece ∈ s.splitOnP UUID.isSpace,
      ∀ c ∈ piece, UUID.isSpace c = false := by
    intro s
    induction s with
    | nil => simp
    | cons c rest ih =>
        rw [List.splitOnP_cons_eq_if_modifyHead]
        by_cases white : UUID.isSpace c = true
        · simpa [white] using ih
        · rw [if_neg white]
          cases split : rest.splitOnP UUID.isSpace with
          | nil => simp
          | cons first others =>
              rw [split] at ih
              intro piece inside
              rcases List.mem_cons.mp inside with rfl | later
              · intro d here
                rcases List.mem_cons.mp here with rfl | more
                · simpa using white
                · exact ih first List.mem_cons_self d more
              · exact ih piece (List.mem_cons_of_mem _ later)
  rw [splitFields, List.mem_filter, decide_eq_true_eq] at member
  exact ⟨member.2, pieces line field member.1⟩

theorem isSpace_of_isWs {c : UInt8} (white : isWs c = true) : UUID.isSpace c = true := by
  simp only [isWs, Bool.or_eq_true, beq_iff_eq] at white
  rcases white with ((rfl | rfl) | rfl) | rfl
  · decide
  · decide
  · decide
  · decide

theorem splitFields_dropWhile (s : Bytes) : splitFields (s.dropWhile isWs) = splitFields s := by
  have front : ∀ c ∈ s.takeWhile isWs, UUID.isSpace c = true :=
    fun c inside => isSpace_of_isWs (List.mem_takeWhile_imp inside)
  calc
    splitFields (s.dropWhile isWs) = splitFields (s.takeWhile isWs ++ s.dropWhile isWs) :=
      (splitFields_blanks_append front _).symm
    _ = splitFields s := by rw [List.takeWhile_append_dropWhile]

theorem splitFields_trim (s : Bytes) : splitFields (trim s) = splitFields s := by
  have back : ∀ c ∈ (s.dropWhile isWs).rtakeWhile isWs, UUID.isSpace c = true :=
    fun c inside => isSpace_of_isWs (List.mem_rtakeWhile_imp inside)
  calc
    splitFields (trim s) = splitFields (trim s ++ (s.dropWhile isWs).rtakeWhile isWs) :=
      (splitFields_append_blanks _ back).symm
    _ = splitFields (s.dropWhile isWs) := by
      rw [trim, List.rdropWhile_append_rtakeWhile]
    _ = splitFields s := splitFields_dropWhile s

/-- The only white space of the line is of the four kinds that `trim` knows. -/
def OnlyWs (line : Bytes) : Prop := ∀ c ∈ line, UUID.isSpace c = true → isWs c = true

instance (line : Bytes) : Decidable (OnlyWs line) :=
  List.decidableBAll (fun c => UUID.isSpace c = true → isWs c = true) line

def firstWord (line : Bytes) : Bytes := (line.dropWhile isWs).takeWhile fun c => !isWs c

def behindFirst (line : Bytes) : Bytes := (line.dropWhile isWs).dropWhile fun c => !isWs c

theorem firstWord_append (line : Bytes) :
    firstWord line ++ behindFirst line = line.dropWhile isWs := List.takeWhile_append_dropWhile

theorem firstWord_dark {line : Bytes} {c : UInt8} (inside : c ∈ firstWord line) :
    isWs c = false := by
  have dark := List.mem_takeWhile_imp inside
  simpa using dark

theorem firstWord_ne_nil {line : Bytes} (shown : ¬ Blank line) : firstWord line ≠ [] := by
  intro empty
  apply shown
  have head := List.head?_dropWhile_not isWs line
  cases left : line.dropWhile isWs with
  | nil => exact fun c member => List.dropWhile_eq_nil_iff.mp left c member
  | cons c rest =>
      rw [left] at head
      rw [firstWord, left, List.takeWhile_cons] at empty
      have dark : isWs c = false := by simpa using head
      rw [dark] at empty
      cases empty

theorem behindFirst_white {line : Bytes} {c : UInt8} {more : Bytes}
    (behind : behindFirst line = c :: more) : isWs c = true := by
  have head := List.head?_dropWhile_not (fun c => !isWs c) (line.dropWhile isWs)
  rw [behindFirst] at behind
  rw [behind] at head
  simpa using head

theorem splitFields_shown {line : Bytes} (only : OnlyWs line) (shown : ¬ Blank line) :
    splitFields line = firstWord line :: splitFields (behindFirst line) := by
  have word : splitFields (firstWord line) = [firstWord line] := by
    refine splitFields_word ⟨firstWord_ne_nil shown, ?_⟩
    intro c inside
    have member : c ∈ line := (List.dropWhile_sublist isWs).subset
      ((List.takeWhile_sublist _).subset inside)
    by_contra white
    have listed := only c member (by simpa using white)
    rw [firstWord_dark inside] at listed
    cases listed
  calc
    splitFields line = splitFields (firstWord line ++ behindFirst line) := by
      rw [firstWord_append, splitFields_dropWhile]
    _ = firstWord line :: splitFields (behindFirst line) := by
      cases behind : behindFirst line with
      | nil => rw [List.append_nil, word]; rfl
      | cons c more =>
          have white := isSpace_of_isWs (behindFirst_white behind)
          rw [splitFields_append _ white, word, splitFields_cons white, List.singleton_append]

theorem isWs_of_dark {c : UInt8} (dark : UUID.isSpace c = false) : isWs c = false := by
  by_contra white
  rw [isSpace_of_isWs (by simpa using white)] at dark
  cases dark

theorem behindFirst_append {word : Bytes} (field : IsField word) (more : Bytes) :
    behindFirst (word ++ more) = more.dropWhile fun c => !isWs c := by
  have front : (word ++ more).dropWhile isWs = word ++ more := by
    cases word with
    | nil => exact absurd rfl field.1
    | cons c rest =>
        have first := isWs_of_dark (field.2 c List.mem_cons_self)
        rw [List.cons_append, List.dropWhile_cons, first]
        rfl
  have inner : ∀ c ∈ word, (!isWs c) = true := by
    intro c inside
    rw [isWs_of_dark (field.2 c inside)]
    rfl
  rw [behindFirst, front, List.dropWhile_append_of_pos inner]

theorem rdropWhile_append {α : Type} (p : α → Bool) (xs ys : List α) :
    (xs ++ ys).rdropWhile p =
      if ys.rdropWhile p = [] then xs.rdropWhile p else xs ++ ys.rdropWhile p := by
  unfold List.rdropWhile
  rw [List.reverse_append, List.dropWhile_append]
  by_cases nothing : ys.reverse.dropWhile p = []
  · simp [nothing]
  · simp [nothing]

theorem trim_eq (line : Bytes) :
    trim line = firstWord line ++ (behindFirst line).rdropWhile isWs := by
  have kept : (firstWord line).rdropWhile isWs = firstWord line := by
    rw [List.rdropWhile_eq_self_iff]
    intro nonempty
    rw [firstWord_dark (List.getLast_mem nonempty)]
    exact Bool.false_ne_true
  rw [trim, ← firstWord_append, rdropWhile_append, kept]
  split
  · next nothing => rw [nothing, List.append_nil]
  · rfl

theorem behindFirst_cases {line : Bytes} (several : ¬ Blank (behindFirst line)) :
    ∃ c more, (behindFirst line).rdropWhile isWs = c :: more ∧
      (behindFirst line).head? = some c ∧ isWs c = true ∧
      splitFields (behindFirst line) = splitFields more := by
  have whole : (behindFirst line).rdropWhile isWs ++ (behindFirst line).rtakeWhile isWs =
      behindFirst line := List.rdropWhile_append_rtakeWhile
  have back : ∀ c ∈ (behindFirst line).rtakeWhile isWs, UUID.isSpace c = true :=
    fun c inside => isSpace_of_isWs (List.mem_rtakeWhile_imp inside)
  cases left : (behindFirst line).rdropWhile isWs with
  | nil => exact absurd (List.rdropWhile_eq_nil_iff.mp left) several
  | cons c more =>
      rw [left, List.cons_append] at whole
      have white := behindFirst_white whole.symm
      refine ⟨c, more, rfl, ?_, white, ?_⟩
      · rw [← whole, List.head?_cons]
      · calc
          splitFields (behindFirst line) =
              splitFields ((c :: more) ++ (behindFirst line).rtakeWhile isWs) := by
            rw [List.cons_append, whole]
          _ = splitFields (c :: more) := splitFields_append_blanks _ back
          _ = splitFields more := splitFields_cons (isSpace_of_isWs white) more

/-- A space follows the first field, or nothing but white space does. -/
def SpaceFollows (line : Bytes) : Prop :=
  (behindFirst line).head? = some space ∨ Blank (behindFirst line)

instance (line : Bytes) : Decidable (Blank line) :=
  List.decidableBAll (fun c => isWs c = true) line

instance (line : Bytes) : Decidable (SpaceFollows line) := inferInstanceAs (Decidable (_ ∨ _))

theorem firstWord_ne_space {line : Bytes} {c : UInt8} (inside : c ∈ firstWord line) :
    decide (c ≠ space) = true := by
  rw [decide_eq_true_eq]
  intro same
  have dark := firstWord_dark inside
  rw [same] at dark
  cases dark

theorem space_not_mem_firstWord (line : Bytes) : space ∉ firstWord line := by
  intro inside
  exact of_decide_eq_true (firstWord_ne_space inside) rfl

theorem firstField_last {line : Bytes} (shown : ¬ Blank line) (last : Blank (behindFirst line)) :
    firstField line = some (firstWord line, []) := by
  have whole : trim line = firstWord line := by
    rw [trim_eq, List.rdropWhile_eq_nil_iff.mpr last, List.append_nil]
  have nonempty := firstWord_ne_nil shown
  have noSpace := space_not_mem_firstWord line
  simp [firstField, whole, nonempty, noSpace]

theorem firstField_space {line more : Bytes}
    (behind : (behindFirst line).rdropWhile isWs = space :: more) :
    firstField line = some (firstWord line, trim more) := by
  have whole : trim line = firstWord line ++ space :: more := by rw [trim_eq, behind]
  have front : (firstWord line ++ space :: more).takeWhile (· ≠ space) = firstWord line := by
    rw [List.takeWhile_append_of_pos fun _ => firstWord_ne_space]
    simp
  have back : (firstWord line ++ space :: more).dropWhile (· ≠ space) = space :: more := by
    rw [List.dropWhile_append_of_pos fun _ => firstWord_ne_space]
    simp
  rw [firstField, whole, front, back]
  simp

/-- Up to a space or to the end, `firstField` takes all white space for a part of the
operation. -/
theorem firstField_other {line more : Bytes} {c : UInt8}
    (behind : (behindFirst line).rdropWhile isWs = c :: more) (other : c ≠ space)
    {op rest : Bytes} (found : firstField line = some (op, rest)) : c ∈ op := by
  have whole : trim line = firstWord line ++ c :: more := by rw [trim_eq, behind]
  rw [firstField, whole] at found
  simp only [List.append_eq_nil_iff, reduceCtorEq, and_false, if_false] at found
  split at found
  · injection found with same
    injection same with same _
    rw [← same, List.takeWhile_append_of_pos fun _ => firstWord_ne_space, List.takeWhile_cons]
    simp [other]
  · injection found with same
    injection same with same _
    rw [← same]
    simp

def joined : List Bytes → Bytes
  | [] => []
  | [field] => field
  | field :: next :: rest => field ++ space :: joined (next :: rest)

/-- `firstField` takes the first of the fields and leaves the others. -/
def TakesFirst (line : Bytes) : Prop :=
  match splitFields line with
  | [] => firstField line = none
  | f :: fs => ∃ rest, firstField line = some (f, rest) ∧ splitFields rest = fs

/-- Both tokenizers see one operation and the same arguments, so that a command other than
`INIT` is handled like the one with single spaces. -/
structure TokenizersAgree (line : Bytes) : Prop where
  fields : TakesFirst line
  handled : (splitFields line).head? ≠ some (utf8 "INIT") →
    ∀ parse port s, handleLine parse port s line =
      handleLine parse port s (joined (splitFields line))

theorem splitFields_joined {fields : List Bytes}
    (valid : ∀ field ∈ fields, IsField field) :
    splitFields (joined fields) = fields := by
  induction fields with
  | nil => decide
  | cons field rest ih =>
      have word := splitFields_word (valid field List.mem_cons_self)
      cases rest with
      | nil => exact word
      | cons next others =>
          have later := ih fun other inside => valid other (List.mem_cons_of_mem _ inside)
          rw [joined, splitFields_append field (by decide), word, later, List.singleton_append]

theorem takesFirst_of_spaceFollows {line : Bytes} (only : OnlyWs line)
    (follows : SpaceFollows line) : TakesFirst line := by
  unfold TakesFirst
  by_cases blank : Blank line
  · have none' := splitFields_blanks fun c inside => isSpace_of_isWs (blank c inside)
    rw [none']
    exact (firstField_none_iff line).mpr blank
  · rw [splitFields_shown only blank]
    by_cases last : Blank (behindFirst line)
    · have none' := splitFields_blanks fun c inside => isSpace_of_isWs (last c inside)
      exact ⟨[], firstField_last blank last, none'.symm⟩
    · rcases behindFirst_cases last with ⟨c, more, kept, head, _, same⟩
      have isSpace : c = space := by
        rcases follows with found | nothing
        · rw [head] at found
          exact Option.some.inj found
        · exact absurd nothing last
      rw [isSpace] at kept
      exact ⟨trim more, firstField_space kept, by rw [splitFields_trim, same]⟩

theorem spaceFollows_of_takesFirst {line : Bytes} (only : OnlyWs line)
    (takes : TakesFirst line) : SpaceFollows line := by
  by_cases last : Blank (behindFirst line)
  · exact .inr last
  · have shown : ¬ Blank line := by
      intro blank
      apply last
      intro c inside
      exact blank c ((List.dropWhile_sublist isWs).subset
        ((List.dropWhile_sublist _).subset inside))
    rw [TakesFirst, splitFields_shown only shown] at takes
    rcases takes with ⟨rest, first, _⟩
    rcases behindFirst_cases last with ⟨c, more, kept, head, white, _⟩
    by_cases isSpace : c = space
    · rw [isSpace] at head
      exact .inl head
    · have inside := firstField_other kept isSpace first
      rw [firstWord_dark inside] at white
      cases white

theorem handleLine_of_fields {line line' f rest rest' : Bytes}
    (first : firstField line = some (f, rest)) (first' : firstField line' = some (f, rest'))
    (same : splitFields rest = splitFields rest') (other : f ≠ utf8 "INIT")
    (parse : Bytes → Except Exc Value) (port : UInt16) (s : Session) :
    handleLine parse port s line = handleLine parse port s line' := by
  unfold handleLine
  rw [first, first']
  simp only [if_neg other, handleXSub, handleXUnsub, handleSub, handleUnsub, same]

theorem onlyWs_joined {fields : List Bytes}
    (valid : ∀ field ∈ fields, IsField field) :
    OnlyWs (joined fields) := by
  have isDark : ∀ field ∈ fields, ∀ c ∈ field, UUID.isSpace c = true → isWs c = true := by
    intro field member c inside white
    rw [(valid field member).2 c inside] at white
    cases white
  induction fields with
  | nil => exact nofun
  | cons field rest ih =>
      cases rest with
      | nil => exact isDark field List.mem_cons_self
      | cons next others =>
          intro c inside white
          rw [joined] at inside
          rcases List.mem_append.mp inside with here | later
          · exact isDark field List.mem_cons_self c here white
          · rcases List.mem_cons.mp later with rfl | further
            · decide
            · exact ih (fun other member => valid other (List.mem_cons_of_mem _ member))
                (fun other member => isDark other (List.mem_cons_of_mem _ member)) c further white

theorem spaceFollows_joined {fields : List Bytes}
    (valid : ∀ field ∈ fields, IsField field) :
    SpaceFollows (joined fields) := by
  cases fields with
  | nil => decide
  | cons field rest =>
      have here := valid field List.mem_cons_self
      cases rest with
      | nil =>
          have behind := behindFirst_append here []
          rw [List.append_nil] at behind
          right
          rw [joined, behind]
          exact nofun
      | cons next others =>
          left
          rw [joined, behindFirst_append here, List.dropWhile_cons]
          rfl

/-- The tokenizers agree on a line exactly when a space, or nothing but white space, follows
its first field. -/
theorem tokenizers_agree_iff {line : Bytes} (only : OnlyWs line) :
    TokenizersAgree line ↔ SpaceFollows line := by
  constructor
  · intro agree
    exact spaceFollows_of_takesFirst only agree.fields
  · intro follows
    have takes := takesFirst_of_spaceFollows only follows
    refine ⟨takes, ?_⟩
    intro noInit parse port s
    have valid : ∀ field ∈ splitFields line, IsField field := fun _ => isField_of_splitFields
    have canonical := takesFirst_of_spaceFollows (onlyWs_joined valid) (spaceFollows_joined valid)
    rw [TakesFirst] at takes
    rw [TakesFirst, splitFields_joined valid] at canonical
    cases split : splitFields line with
    | nil =>
        rw [split] at takes canonical
        unfold handleLine
        rw [takes, canonical]
    | cons f fs =>
        rw [split] at takes canonical noInit
        rcases takes with ⟨rest, first, same⟩
        rcases canonical with ⟨rest', first', same'⟩
        have other : f ≠ utf8 "INIT" := by
          intro init
          exact noInit (congrArg some init)
        exact handleLine_of_fields first first' (same.trans same'.symm) other parse port s

theorem tokenizers_agree_sub : TokenizersAgree (utf8 "  SUB sub1\tActionCommandMT ActionCommand") :=
  (tokenizers_agree_iff (by decide)).mpr (by decide)

theorem tab_joins_fields : OnlyWs (utf8 "SUB\tsub1 ActionCommandMT ActionCommand") ∧
    ¬ TokenizersAgree (utf8 "SUB\tsub1 ActionCommandMT ActionCommand") := by
  have split : splitFields (utf8 "SUB\tsub1 ActionCommandMT ActionCommand") =
      [utf8 "SUB", utf8 "sub1", utf8 "ActionCommandMT", utf8 "ActionCommand"] := by decide
  have first : firstField (utf8 "SUB\tsub1 ActionCommandMT ActionCommand") =
      some (utf8 "SUB\tsub1", utf8 "ActionCommandMT ActionCommand") := by decide
  refine ⟨by decide, ?_⟩
  intro agree
  have takes := agree.fields
  rw [TakesFirst, split, first] at takes
  rcases takes with ⟨rest, same, _⟩
  injection same with same
  injection same with same _
  exact absurd same (by decide)

end Arcal.Lacal
