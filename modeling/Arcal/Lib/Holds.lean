import Mathlib.Data.Finmap

/-! Finite maps and the lists of entries they hold. -/

/-- The map holds these entries and no others, each key once. -/
structure Holds {κ β : Type} [DecidableEq κ] (map : Finmap fun _ : κ => β)
    (entries : List (κ × β)) : Prop where
  distinct : (entries.map Prod.fst).Nodup
  lookup : ∀ key value, map.lookup key = some value ↔ (key, value) ∈ entries

namespace Holds

variable {κ β : Type} [DecidableEq κ] {map map' : Finmap fun _ : κ => β}
  {entries entries' : List (κ × β)}

theorem empty : Holds (∅ : Finmap fun _ : κ => β) [] where
  distinct := List.nodup_nil
  lookup := by
    intro key value
    rw [Finmap.lookup_empty]
    simp

theorem mem_iff (holds : Holds map entries) {key : κ} :
    key ∈ map ↔ key ∈ entries.map Prod.fst := by
  rw [Finmap.mem_iff, List.mem_map]
  constructor
  · intro given
    rcases given with ⟨value, found⟩
    exact ⟨(key, value), (holds.lookup key value).mp found, rfl⟩
  · intro given
    rcases given with ⟨entry, inside, same⟩
    refine ⟨entry.2, (holds.lookup key entry.2).mpr ?_⟩
    rw [← same]
    exact inside

theorem insert (holds : Holds map entries) {key : κ} (fresh : key ∉ map) (value : β) :
    Holds (map.insert key value) (entries ++ [(key, value)]) where
  distinct := by
    rw [List.map_append, List.map_singleton]
    apply List.Nodup.append holds.distinct (List.nodup_singleton key)
    intro other inside same
    rw [List.mem_singleton.mp same] at inside
    exact fresh (holds.mem_iff.mpr inside)
  lookup := by
    intro other held
    rw [List.mem_append, List.mem_singleton, Prod.mk.injEq, ← holds.lookup]
    by_cases here : other = key
    · subst here
      rw [Finmap.lookup_insert, Finmap.lookup_eq_none.mpr fresh]
      simp [eq_comm]
    · rw [Finmap.lookup_insert_of_ne _ here]
      simp [here]

theorem exists_of_nodup (distinct : (entries.map Prod.fst).Nodup) :
    ∃ map : Finmap fun _ : κ => β, Holds map entries := by
  induction entries using List.reverseRecOn with
  | nil => exact ⟨∅, empty⟩
  | append_singleton front entry ih =>
      rw [List.map_append, List.map_singleton, List.nodup_append] at distinct
      rcases ih distinct.1 with ⟨map, holds⟩
      have fresh : entry.1 ∉ map := by
        rw [holds.mem_iff]
        intro inside
        exact distinct.2.2 _ inside _ (List.mem_singleton_self _) rfl
      exact ⟨map.insert entry.1 entry.2, holds.insert fresh entry.2⟩

theorem exists_front (holds : Holds map (entries ++ entries')) :
    ∃ front : Finmap fun _ : κ => β, Holds front entries := by
  apply exists_of_nodup
  have distinct := holds.distinct
  rw [List.map_append] at distinct
  exact (List.nodup_append.mp distinct).1

theorem unique (holds : Holds map entries) (holds' : Holds map' entries) : map = map' := by
  apply Finmap.ext_lookup
  intro key
  apply Option.ext
  intro value
  rw [holds.lookup, holds'.lookup]

end Holds
