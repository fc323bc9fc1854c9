import Mathlib.Data.List.Forall2
import Mathlib.Data.List.Perm.Basic

/-! Lists that agree up to the order of their entries and a relation between these. -/

/-- The entries of one list are related to those of the other in some order. -/
def Reordered {α β : Type} (related : α → β → Prop) : List α → List β → Prop :=
  Relation.Comp (List.Forall₂ related) List.Perm

namespace Reordered

variable {α β γ δ : Type}

theorem perm {left right : List α} (reordered : Reordered Eq left right) : left.Perm right := by
  rcases reordered with ⟨mid, same, order⟩
  rw [List.forall₂_eq_eq_eq] at same
  rw [same]
  exact order

theorem refl {related : α → α → Prop} (self : ∀ entry, related entry entry) (entries : List α) :
    Reordered related entries entries :=
  ⟨entries, List.forall₂_same.mpr fun entry _ => self entry, .refl entries⟩

theorem symm {related : α → α → Prop} (back : ∀ left right, related left right → related right left)
    {left right : List α} (reordered : Reordered related left right) :
    Reordered related right left := by
  rw [Reordered, List.forall₂_comp_perm_eq_perm_comp_forall₂] at reordered
  rcases reordered with ⟨mid, order, pairs⟩
  exact ⟨mid, pairs.flip.imp fun entry entry' => back entry' entry, order.symm⟩

theorem transfer {related : α → β → Prop} {reads : α → γ → Prop} {reads' : β → δ → Prop}
    {same : γ → δ → Prop}
    (each : ∀ entry entry' value, related entry entry' → reads entry value →
      ∃ value', reads' entry' value' ∧ same value value')
    {left : List α} {right : List β} {values : List γ} (reordered : Reordered related left right)
    (all : List.Forall₂ reads left values) :
    ∃ values', List.Forall₂ reads' right values' ∧ Reordered same values values' := by
  rcases reordered with ⟨mid, pairs, order⟩
  have inPlace : ∃ between, List.Forall₂ reads' mid between ∧ List.Forall₂ same values between := by
    clear order
    induction pairs generalizing values with
    | nil =>
        cases all
        exact ⟨[], .nil, .nil⟩
    | cons first _ ih =>
        cases all with
        | cons read later =>
            rcases each _ _ _ first read with ⟨value', read', isSame⟩
            rcases ih later with ⟨between, reads', areSame⟩
            exact ⟨value' :: between, .cons read' reads', .cons isSame areSame⟩
  rcases inPlace with ⟨between, reads', areSame⟩
  rcases List.perm_comp_forall₂ order.symm reads' with ⟨values', fromRight, order'⟩
  exact ⟨values', fromRight, between, areSame, order'.symm⟩

theorem flatMap {related : α → β → Prop} {f : α → List γ} {g : β → List γ}
    (each : ∀ entry entry', related entry entry' → (f entry).Perm (g entry'))
    {left : List α} {right : List β} (reordered : Reordered related left right) :
    (left.flatMap f).Perm (right.flatMap g) := by
  rcases reordered with ⟨mid, pairs, order⟩
  refine List.Perm.trans ?_ (order.flatMap_right g)
  clear order
  induction pairs with
  | nil => exact .refl _
  | cons first _ ih =>
      rw [List.flatMap_cons, List.flatMap_cons]
      exact (each _ _ first).append ih

theorem map {related : α → β → Prop} {f : α → γ} {g : β → γ}
    (each : ∀ entry entry', related entry entry' → f entry = g entry')
    {left : List α} {right : List β} (reordered : Reordered related left right) :
    (left.map f).Perm (right.map g) := by
  rcases reordered with ⟨mid, pairs, order⟩
  refine List.Perm.trans ?_ (order.map g)
  have same : left.map f = mid.map g := by
    rw [← List.forall₂_eq_eq_eq, List.forall₂_map_left_iff, List.forall₂_map_right_iff]
    exact pairs.imp each
  rw [same]

end Reordered
