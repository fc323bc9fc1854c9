import Mathlib.Data.List.Induction
import Mathlib.Logic.Function.Basic

/-! Files that are written only when their content changes. A file keeps the stamp of the
last run that wrote it, so whoever builds from the files sees what has changed. -/

namespace Incremental

structure File (β : Type) where
  content : β
  stamp : Nat
  deriving DecidableEq, Repr

abbrev Tree (κ β : Type) := κ → Option (File β)

variable {κ β : Type}

def contents (tree : Tree κ β) : κ → Option β := fun key => (tree key).map File.content

def removeIf (stale : κ → Bool) (tree : Tree κ β) : Tree κ β := fun key =>
  if stale key then none else tree key

theorem removeIf_removeIf (first second : κ → Bool) (tree : Tree κ β) :
    removeIf second (removeIf first tree) = removeIf (fun key => first key || second key) tree := by
  funext key
  cases one : first key <;> cases other : second key <;> simp [removeIf, one, other]

variable [DecidableEq κ] [DecidableEq β]

def put (now : Nat) (tree : Tree κ β) (key : κ) (content : β) : Tree κ β :=
  if contents tree key = some content then tree
  else Function.update tree key (some ⟨content, now⟩)

def putAll (now : Nat) (tree : Tree κ β) (files : List (κ × β)) : Tree κ β :=
  files.foldl (fun tree file => put now tree file.1 file.2) tree

variable {now : Nat} {tree : Tree κ β} {key : κ} {content : β} {files : List (κ × β)}

theorem put_same (same : contents tree key = some content) : put now tree key content = tree :=
  if_pos same

theorem put_new (new : contents tree key ≠ some content) :
    put now tree key content key = some ⟨content, now⟩ := by
  rw [put, if_neg new, Function.update_self]

theorem put_other {other : κ} (apart : other ≠ key) :
    put now tree key content other = tree other := by
  rw [put]
  split
  · rfl
  · rw [Function.update_of_ne apart]

theorem contents_put (other : κ) : contents (put now tree key content) other =
    if other = key then some content else contents tree other := by
  by_cases here : other = key
  · subst here
    rw [if_pos rfl]
    by_cases same : contents tree other = some content
    · rw [put_same same, same]
    · rw [contents, put_new same, Option.map_some]
  · rw [if_neg here, contents, put_other here, contents]

theorem putAll_append (more : List (κ × β)) :
    putAll now tree (files ++ more) = putAll now (putAll now tree files) more :=
  List.foldl_append

theorem contents_putAll (key : κ) : contents (putAll now tree files) key =
    (files.reverse.lookup key).or (contents tree key) := by
  induction files using List.reverseRecOn with
  | nil => rfl
  | append_singleton files file ih =>
      obtain ⟨written, content⟩ := file
      have last : putAll now tree (files ++ [(written, content)]) =
          put now (putAll now tree files) written content := putAll_append _
      rw [last, contents_put, List.reverse_append, List.reverse_singleton, List.singleton_append,
        List.lookup_cons]
      by_cases here : key = written
      · rw [if_pos here, beq_iff_eq.mpr here]
        rfl
      · rw [if_neg here, beq_false_of_ne here, ih]

theorem putAll_other (apart : key ∉ files.map Prod.fst) :
    putAll now tree files key = tree key := by
  induction files generalizing tree with
  | nil => rfl
  | cons file rest ih =>
      rw [List.map_cons, List.mem_cons, not_or] at apart
      exact (ih apart.2).trans (put_other apart.1)

theorem putAll_stamped (stamped : ∃ content, tree key = some ⟨content, now⟩) :
    ∃ content, putAll now tree files key = some ⟨content, now⟩ := by
  induction files generalizing tree with
  | nil => exact stamped
  | cons file rest ih =>
      obtain ⟨written, content⟩ := file
      change ∃ result, putAll now (put now tree written content) rest key = some ⟨result, now⟩
      apply ih
      by_cases here : key = written
      · subst here
        by_cases same : contents tree key = some content
        · rw [put_same same]
          exact stamped
        · exact ⟨content, put_new same⟩
      · rw [put_other here]
        exact stamped

/-- A file is left alone exactly when nothing but its content is written to it. -/
theorem putAll_kept_iff (old : ∀ file, tree key = some file → file.stamp ≠ now) :
    putAll now tree files key = tree key ↔
      ∀ content, (key, content) ∈ files → contents tree key = some content := by
  induction files generalizing tree with
  | nil => simp [putAll]
  | cons file rest ih =>
      obtain ⟨written, content⟩ := file
      have first : putAll now tree ((written, content) :: rest) =
          putAll now (put now tree written content) rest := rfl
      rw [first]
      by_cases here : key = written
      · subst here
        by_cases same : contents tree key = some content
        · rw [put_same same, ih old]
          constructor
          · intro all other member
            cases List.mem_cons.mp member with
            | inl head => rw [same, (Prod.mk.inj head).2]
            | inr tail => exact all other tail
          · intro all other member
            exact all other (List.mem_cons_of_mem _ member)
        · constructor
          · intro kept
            have stamped : ∃ content', put now tree key content key = some ⟨content', now⟩ :=
              ⟨content, put_new same⟩
            have later : ∃ content',
                putAll now (put now tree key content) rest key = some ⟨content', now⟩ :=
              putAll_stamped stamped
            obtain ⟨content', result⟩ := later
            rw [result] at kept
            exact absurd rfl (old _ kept.symm)
          · intro all
            exact absurd (all content List.mem_cons_self) same
      · have there : put now tree written content key = tree key := put_other here
        have unread : contents (put now tree written content) key = contents tree key := by
          rw [contents, there, contents]
        have still : ∀ file, put now tree written content key = some file → file.stamp ≠ now := by
          rw [there]
          exact old
        rw [← there, ih still, unread]
        constructor
        · intro all other member
          cases List.mem_cons.mp member with
          | inl head => exact absurd (Prod.mk.inj head).1 here
          | inr tail => exact all other tail
        · intro all other member
          exact all other (List.mem_cons_of_mem _ member)

end Incremental
