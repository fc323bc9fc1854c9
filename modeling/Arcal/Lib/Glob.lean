import Mathlib.Data.List.Forall2

/-! Patterns whose symbols each match a piece of the text: some of them any piece, the others
one character. -/

namespace Glob

variable {σ α : Type} (fits : σ → List α → Prop)

/-- The text splits into pieces that fit the symbols in turn. -/
def Matches (pattern : List σ) (text : List α) : Prop :=
  ∃ pieces, List.Forall₂ fits pattern pieces ∧ pieces.flatten = text

def Star (symbol : σ) : Prop := ∀ piece, fits symbol piece

def Single (symbol : σ) : Prop := ∀ piece, fits symbol piece → ∃ c, piece = [c]

variable {fits} {symbol : σ} {pattern segment : List σ} {text : List α}

theorem matches_nil : Matches fits [] text ↔ text = [] := by
  constructor
  · rintro ⟨pieces, fitting, rfl⟩
    cases fitting
    rfl
  · rintro rfl
    exact ⟨[], .nil, rfl⟩

theorem matches_cons : Matches fits (symbol :: pattern) text ↔
    ∃ piece rest, text = piece ++ rest ∧ fits symbol piece ∧ Matches fits pattern rest := by
  constructor
  · rintro ⟨pieces, fitting, rfl⟩
    cases fitting with
    | cons first later => exact ⟨_, _, List.flatten_cons, first, _, later, rfl⟩
  · rintro ⟨piece, rest, rfl, first, pieces, later, rfl⟩
    exact ⟨piece :: pieces, .cons first later, List.flatten_cons⟩

theorem matches_star (star : Star fits symbol) : Matches fits (symbol :: pattern) text ↔
    ∃ n, n ≤ text.length ∧ Matches fits pattern (text.drop n) := by
  rw [matches_cons]
  constructor
  · rintro ⟨piece, rest, rfl, _, later⟩
    refine ⟨piece.length, by simp, ?_⟩
    rw [List.drop_left]
    exact later
  · rintro ⟨n, _, later⟩
    exact ⟨text.take n, text.drop n, (List.take_append_drop n text).symm, star _, later⟩

theorem matches_single (single : Single fits symbol) {c : α} :
    Matches fits (symbol :: pattern) (c :: text) ↔ fits symbol [c] ∧ Matches fits pattern text := by
  rw [matches_cons]
  constructor
  · rintro ⟨piece, rest, same, first, later⟩
    obtain ⟨d, rfl⟩ := single piece first
    injection same with head tail
    subst head tail
    exact ⟨first, later⟩
  · rintro ⟨first, later⟩
    exact ⟨[c], text, rfl, first, later⟩

theorem not_matches_single_nil (single : Single fits symbol) :
    ¬ Matches fits (symbol :: pattern) [] := by
  rw [matches_cons]
  rintro ⟨piece, rest, same, first, _⟩
  obtain ⟨c, rfl⟩ := single piece first
  cases same

theorem Matches.skip (found : Matches fits (segment ++ pattern) text)
    (singles : ∀ symbol ∈ segment, Single fits symbol) :
    segment.length ≤ text.length ∧ Matches fits pattern (text.drop segment.length) := by
  induction segment generalizing text with
  | nil => exact ⟨Nat.zero_le _, found⟩
  | cons symbol rest ih =>
      have single := singles symbol List.mem_cons_self
      cases text with
      | nil => exact absurd found (not_matches_single_nil single)
      | cons c later =>
          have behind := ih ((matches_single single).mp found).2
            fun other member => singles other (List.mem_cons_of_mem _ member)
          exact ⟨Nat.succ_le_succ behind.1, behind.2⟩

/-- A star that matches from a later place matches from here. -/
theorem Matches.absorb (star : Star fits symbol) {n : Nat}
    (found : Matches fits (symbol :: pattern) (text.drop n)) :
    Matches fits (symbol :: pattern) text := by
  obtain ⟨k, _, later⟩ := (matches_star star).mp found
  rw [List.drop_drop] at later
  refine (matches_star star).mpr ?_
  by_cases inside : n + k ≤ text.length
  · exact ⟨n + k, inside, later⟩
  · refine ⟨text.length, Nat.le_refl _, ?_⟩
    rw [List.drop_eq_nil_of_le (by omega)] at later
    rw [List.drop_length]
    exact later

end Glob
