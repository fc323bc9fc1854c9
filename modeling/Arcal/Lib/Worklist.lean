import Mathlib.Data.List.Basic
import Mathlib.Algebra.Order.BigOperators.Group.List
import Mathlib.Algebra.Order.Ring.Nat
import Mathlib.Logic.Relation

/-! What a worklist collects: the nodes of a finite graph that can be reached from where it
starts. -/

namespace Arcal.Worklist

/-- Names may point at names that are no nodes; those lead nowhere. -/
structure Dependencies (α : Type) where
  nodes : List α
  next : α → List α

namespace Dependencies

variable {α : Type} (deps : Dependencies α)

def Edge (x y : α) : Prop := x ∈ deps.nodes ∧ y ∈ deps.next x

def Reachable (start : List α) (y : α) : Prop :=
  y ∈ deps.nodes ∧ ∃ x ∈ start, Relation.ReflTransGen deps.Edge x y

def push (names pending : List α) : List α := names.reverse ++ pending

@[simp] theorem mem_push {names pending : List α} {x : α} :
    x ∈ push names pending ↔ x ∈ names ∨ x ∈ pending := by
  simp [push]

@[simp] theorem length_push (names pending : List α) :
    (push names pending).length = names.length + pending.length := by
  simp [push]

variable [DecidableEq α]

def ahead (required : List α) : Nat :=
  ((deps.nodes.filter (· ∉ required)).map fun x => (deps.next x).length).sum

variable {deps}

theorem sum_filter_lt {weight : α → Nat} {nodes required : List α} {x : α} (node : x ∈ nodes)
    (isNew : x ∉ required) :
    ((nodes.filter (· ∉ x :: required)).map weight).sum + weight x ≤
      ((nodes.filter (· ∉ required)).map weight).sum := by
  induction nodes with
  | nil => cases node
  | cons first rest ih =>
      have fewer : ((rest.filter (· ∉ x :: required)).map weight).sum ≤
          ((rest.filter (· ∉ required)).map weight).sum := by
        apply List.Sublist.sum_le_sum
        · apply List.Sublist.map
          apply List.monotone_filter_right
          intro y
          simp only [List.mem_cons, not_or, decide_eq_true_eq]
          exact And.right
        · intro n _
          exact Nat.zero_le n
      by_cases here : first = x
      · subst here
        rw [List.filter_cons_of_neg (by simp), List.filter_cons_of_pos (by simpa using isNew),
          List.map_cons, List.sum_cons]
        omega
      · have later : x ∈ rest := by
          rcases List.mem_cons.mp node with same | later
          · exact absurd same.symm here
          · exact later
        have ih := ih later
        by_cases old : first ∈ required
        · rw [List.filter_cons_of_neg (by simp [old]), List.filter_cons_of_neg (by simp [old])]
          exact ih
        · rw [List.filter_cons_of_pos (by simp [old, here]),
            List.filter_cons_of_pos (by simpa using old)]
          simp only [List.map_cons, List.sum_cons]
          omega

theorem ahead_add {required : List α} {x : α} (node : x ∈ deps.nodes) (isNew : x ∉ required) :
    deps.ahead (x :: required) + (deps.next x).length ≤ deps.ahead required :=
  sum_filter_lt node isNew

variable (deps) in
/-- Take the name pushed last; a node that is new is collected and pushes its edges. -/
def collect (required : List α) : List α → List α
  | [] => required
  | x :: pending =>
      if x ∈ required then collect required pending
      else if x ∈ deps.nodes then collect (x :: required) (push (deps.next x) pending)
      else collect required pending
termination_by pending => pending.length + deps.ahead required
decreasing_by
  · simp
  · next isNew node =>
      have fewer := ahead_add node isNew
      simp only [length_push, List.length_cons]
      omega
  · simp

theorem collect_keeps {required pending : List α} {x : α} (member : x ∈ required) :
    x ∈ deps.collect required pending := by
  fun_induction collect deps required pending with
  | case1 => exact member
  | case2 required y pending old ih => exact ih member
  | case3 required y pending isNew node ih => exact ih (List.mem_cons_of_mem y member)
  | case4 required y pending isNew foreign ih => exact ih member

theorem collect_pending {required pending : List α} {x : α} (member : x ∈ pending)
    (node : x ∈ deps.nodes) : x ∈ deps.collect required pending := by
  fun_induction collect deps required pending with
  | case1 => cases member
  | case2 required y pending old ih =>
      rcases List.mem_cons.mp member with here | later
      · exact collect_keeps (here ▸ old)
      · exact ih later
  | case3 required y pending isNew isNode ih =>
      rcases List.mem_cons.mp member with here | later
      · exact collect_keeps (here ▸ List.mem_cons_self)
      · exact ih (mem_push.mpr (Or.inr later))
  | case4 required y pending isNew foreign ih =>
      rcases List.mem_cons.mp member with here | later
      · exact absurd (here ▸ node) foreign
      · exact ih later

theorem collect_closed {required pending : List α}
    (covered : ∀ x ∈ required, ∀ y ∈ deps.next x, y ∈ deps.nodes → y ∈ required ∨ y ∈ pending)
    {x y : α} (collected : x ∈ deps.collect required pending) (edge : y ∈ deps.next x)
    (node : y ∈ deps.nodes) : y ∈ deps.collect required pending := by
  fun_induction collect deps required pending with
  | case1 required =>
      rcases covered x collected y edge node with done | left
      · exact done
      · cases left
  | case2 required z pending old ih =>
      apply ih _ collected
      intro u member v out isNode
      rcases covered u member v out isNode with done | left
      · exact Or.inl done
      · rcases List.mem_cons.mp left with here | later
        · exact Or.inl (here ▸ old)
        · exact Or.inr later
  | case3 required z pending isNew isNode ih =>
      apply ih _ collected
      intro u member v out isNode'
      rcases List.mem_cons.mp member with here | before
      · refine Or.inr (mem_push.mpr (Or.inl ?_))
        rw [← here]
        exact out
      · rcases covered u before v out isNode' with done | left
        · exact Or.inl (List.mem_cons_of_mem z done)
        · rcases List.mem_cons.mp left with here | later
          · exact Or.inl (here ▸ List.mem_cons_self)
          · exact Or.inr (mem_push.mpr (Or.inr later))
  | case4 required z pending isNew foreign ih =>
      apply ih _ collected
      intro u member v out isNode
      rcases covered u member v out isNode with done | left
      · exact Or.inl done
      · rcases List.mem_cons.mp left with here | later
        · exact absurd (here ▸ isNode) foreign
        · exact Or.inr later

theorem collect_sound {required pending : List α} {y : α}
    (collected : y ∈ deps.collect required pending) :
    y ∈ required ∨ deps.Reachable pending y := by
  fun_induction collect deps required pending with
  | case1 required => exact Or.inl collected
  | case2 required z pending old ih =>
      rcases ih collected with done | ⟨node, x, member, path⟩
      · exact Or.inl done
      · exact Or.inr ⟨node, x, List.mem_cons_of_mem z member, path⟩
  | case3 required z pending isNew isNode ih =>
      rcases ih collected with done | ⟨node, x, member, path⟩
      · rcases List.mem_cons.mp done with here | before
        · rw [here]
          exact Or.inr ⟨isNode, z, List.mem_cons_self, Relation.ReflTransGen.refl⟩
        · exact Or.inl before
      · rcases mem_push.mp member with pushed | later
        · have edge : deps.Edge z x := ⟨isNode, pushed⟩
          exact Or.inr ⟨node, z, List.mem_cons_self, Relation.ReflTransGen.head edge path⟩
        · exact Or.inr ⟨node, x, List.mem_cons_of_mem z later, path⟩
  | case4 required z pending isNew foreign ih =>
      rcases ih collected with done | ⟨node, x, member, path⟩
      · exact Or.inl done
      · exact Or.inr ⟨node, x, List.mem_cons_of_mem z member, path⟩

/-- The worklist collects the nodes that can be reached from the names it starts with. -/
theorem mem_collect {pending : List α} {y : α} :
    y ∈ deps.collect [] pending ↔ deps.Reachable pending y := by
  constructor
  · intro collected
    rcases collect_sound collected with none | reached
    · cases none
    · exact reached
  · rintro ⟨node, x, member, path⟩
    induction path with
    | refl => exact collect_pending member node
    | tail _ edge ih => exact collect_closed nofun (ih edge.1) edge.2 node

end Dependencies

end Arcal.Worklist
