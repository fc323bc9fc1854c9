import Mathlib.Data.List.Basic
import Mathlib.Data.List.Nodup

/-! A map with at most one entry for a key, in no order that means anything. -/

structure Table (κ β : Type) where
  entries : List (κ × β)
  distinct : (entries.map Prod.fst).Nodup

namespace Table

variable {κ β : Type}

def empty : Table κ β := ⟨[], List.nodup_nil⟩

def keys (table : Table κ β) : List κ := table.entries.map Prod.fst

def values (table : Table κ β) : List β := table.entries.map Prod.snd

def eraseIf (table : Table κ β) (condition : κ → Bool) : Table κ β where
  entries := table.entries.filter fun entry => !condition entry.1
  distinct := table.distinct.sublist (List.filter_sublist.map Prod.fst)

theorem mem_eraseIf {table : Table κ β} {condition : κ → Bool} {entry : κ × β} :
    entry ∈ (table.eraseIf condition).entries ↔
      entry ∈ table.entries ∧ condition entry.1 = false := by
  simp [eraseIf, List.mem_filter]

theorem value_unique (table : Table κ β) {key : κ} {left right : β}
    (first : (key, left) ∈ table.entries) (second : (key, right) ∈ table.entries) :
    left = right := by
  have same := List.inj_on_of_nodup_map table.distinct first second rfl
  exact (Prod.mk.inj same).2

variable [DecidableEq κ]

def find (table : Table κ β) (key : κ) : Option β := table.entries.lookup key

theorem lookup_eq_some {entries : List (κ × β)} {key : κ} {value : β}
    (found : entries.lookup key = some value) : (key, value) ∈ entries := by
  induction entries with
  | nil => cases found
  | cons entry rest ih =>
      rcases entry with ⟨other, held⟩
      by_cases here : key = other
      · subst here
        rw [List.lookup_cons_self] at found
        rw [Option.some.inj found]
        exact List.mem_cons_self
      · rw [List.lookup_cons, show (key == other) = false by simpa using here] at found
        exact List.mem_cons_of_mem _ (ih found)

theorem lookup_eq_none {entries : List (κ × β)} {key : κ}
    (missing : entries.lookup key = none) : key ∉ entries.map Prod.fst := by
  induction entries with
  | nil => simp
  | cons entry rest ih =>
      rcases entry with ⟨other, held⟩
      by_cases here : key = other
      · subst here
        rw [List.lookup_cons_self] at missing
        cases missing
      · rw [List.lookup_cons, show (key == other) = false by simpa using here] at missing
        rw [List.map_cons, List.mem_cons, not_or]
        exact ⟨here, ih missing⟩

theorem find_eq_some_iff {table : Table κ β} {key : κ} {value : β} :
    table.find key = some value ↔ (key, value) ∈ table.entries := by
  constructor
  · exact lookup_eq_some
  · intro member
    cases found : table.find key with
    | none => exact absurd (List.mem_map_of_mem member) (lookup_eq_none found)
    | some held => rw [table.value_unique (lookup_eq_some found) member]

theorem find_eq_none_iff {table : Table κ β} {key : κ} :
    table.find key = none ↔ key ∉ table.keys := by
  constructor
  · exact lookup_eq_none
  · intro missing
    cases found : table.find key with
    | none => rfl
    | some held => exact absurd (List.mem_map_of_mem (lookup_eq_some found)) missing

def add (table : Table κ β) (key : κ) (value : β) (absent : table.find key = none) :
    Table κ β where
  entries := (key, value) :: table.entries
  distinct := by
    rw [List.map_cons, List.nodup_cons]
    exact ⟨lookup_eq_none absent, table.distinct⟩

@[simp] theorem add_entries (table : Table κ β) (key : κ) (value : β)
    (absent : table.find key = none) :
    (table.add key value absent).entries = (key, value) :: table.entries := rfl

@[simp] theorem add_keys (table : Table κ β) (key : κ) (value : β)
    (absent : table.find key = none) :
    (table.add key value absent).keys = key :: table.keys := rfl

@[simp] theorem add_values (table : Table κ β) (key : κ) (value : β)
    (absent : table.find key = none) :
    (table.add key value absent).values = value :: table.values := rfl

def setdefault (table : Table κ β) (key : κ) (value : β) : Table κ β :=
  if absent : table.find key = none then table.add key value absent else table

theorem find_setdefault (table : Table κ β) (key other : κ) (value : β) :
    (table.setdefault key value).find other =
      if other = key then some ((table.find key).getD value) else table.find other := by
  unfold setdefault
  split
  · next absent =>
    rw [find, add_entries, List.lookup_cons, absent]
    by_cases same : other = key
    · simp [same]
    · rw [if_neg same, beq_false_of_ne same]
      rfl
  · next present =>
    rcases Option.ne_none_iff_exists'.mp present with ⟨held, known⟩
    by_cases same : other = key
    · simp [same, known]
    · rw [if_neg same]

end Table
