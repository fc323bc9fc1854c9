import Mathlib.Data.Nat.Digits.Defs
import Mathlib.Tactic.Ring

/-! Numbers written in some base with the most significant digit first. -/

namespace BigEndian

def value (base : Nat) (digits : List Nat) : Nat :=
  digits.foldl (fun acc digit => acc * base + digit) 0

def digits (base : Nat) : Nat → Nat → List Nat
  | 0, _ => []
  | width + 1, n => n / base ^ width % base :: digits base width n

section Value

variable {base : Nat}

theorem foldl_eq (ds : List Nat) (acc : Nat) :
    ds.foldl (fun acc digit => acc * base + digit) acc =
      acc * base ^ ds.length + value base ds := by
  induction ds generalizing acc with
  | nil => simp [value]
  | cons d rest ih =>
      rw [value, List.foldl_cons, List.foldl_cons, ih, ih (0 * base + d), List.length_cons]
      ring

theorem value_cons (d : Nat) (rest : List Nat) :
    value base (d :: rest) = d * base ^ rest.length + value base rest := by
  rw [value, List.foldl_cons, foldl_eq, Nat.zero_mul, Nat.zero_add]

theorem value_append (high low : List Nat) :
    value base (high ++ low) = value base high * base ^ low.length + value base low := by
  rw [value, List.foldl_append, foldl_eq]
  rfl

/-- The same number as Mathlib's, which has the least significant digit first. -/
theorem value_eq_ofDigits (ds : List Nat) : value base ds = Nat.ofDigits base ds.reverse := by
  induction ds with
  | nil => rfl
  | cons d rest ih =>
      rw [value_cons, List.reverse_cons, Nat.ofDigits_append, Nat.ofDigits_singleton,
        List.length_reverse, ih]
      ring

theorem value_lt (proper : 1 < base) {ds : List Nat} (small : ∀ d ∈ ds, d < base) :
    value base ds < base ^ ds.length := by
  rw [value_eq_ofDigits, ← List.length_reverse]
  apply Nat.ofDigits_lt_base_pow_length proper
  intro d member
  exact small d (List.mem_reverse.mp member)

theorem value_injective (proper : 1 < base) {left right : List Nat}
    (sized : left.length = right.length) (smallLeft : ∀ d ∈ left, d < base)
    (smallRight : ∀ d ∈ right, d < base) (same : value base left = value base right) :
    left = right := by
  rw [value_eq_ofDigits, value_eq_ofDigits] at same
  apply List.reverse_inj.mp
  apply Nat.ofDigits_inj_of_len_eq proper
  · rw [List.length_reverse, List.length_reverse, sized]
  · intro d member
    exact smallLeft d (List.mem_reverse.mp member)
  · intro d member
    exact smallRight d (List.mem_reverse.mp member)
  · exact same

theorem lt_iff_value_lt (proper : 1 < base) {left right : List Nat}
    (sized : left.length = right.length) (smallLeft : ∀ d ∈ left, d < base)
    (smallRight : ∀ d ∈ right, d < base) : left < right ↔ value base left < value base right := by
  induction left generalizing right with
  | nil =>
      cases right with
      | nil => simp
      | cons d rest => cases sized
  | cons first rest ih =>
      cases right with
      | nil => cases sized
      | cons first' rest' =>
          have tails : rest.length = rest'.length := by simpa using sized
          have later := ih tails (fun d member => smallLeft d (List.mem_cons_of_mem _ member))
            (fun d member => smallRight d (List.mem_cons_of_mem _ member))
          have below := value_lt proper fun d member =>
            smallLeft d (List.mem_cons_of_mem first member)
          have below' := value_lt proper fun d member =>
            smallRight d (List.mem_cons_of_mem first' member)
          rw [List.cons_lt_cons_iff, value_cons, value_cons, tails, later]
          rw [tails] at below
          generalize base ^ rest'.length = scale at below below' ⊢
          constructor
          · rintro (high | ⟨rfl, low⟩)
            · calc
                first * scale + value base rest < (first + 1) * scale := by
                  rw [Nat.succ_mul]
                  omega
                _ ≤ first' * scale := Nat.mul_le_mul_right scale high
                _ ≤ first' * scale + value base rest' := Nat.le_add_right _ _
            · omega
          · intro less
            rcases Nat.lt_trichotomy first first' with high | rfl | low
            · exact .inl high
            · exact .inr ⟨rfl, by omega⟩
            · have more := Nat.mul_le_mul_right scale low
              rw [Nat.succ_mul] at more
              omega

end Value

section Digits

variable {base : Nat}

theorem digits_add_mul (high low width extra : Nat) :
    digits base width (high * base ^ (width + extra) + low) = digits base width low := by
  induction width generalizing extra with
  | zero => rfl
  | succ width ih =>
      have whole : high * base ^ (width + 1 + extra) =
          base ^ width * (base * (high * base ^ extra)) := by ring
      rcases Nat.eq_zero_or_pos (base ^ width) with zero | positive
      · have again := ih (1 + extra)
        rw [← Nat.add_assoc] at again
        rw [digits, digits, again, zero, Nat.div_zero, Nat.div_zero]
      · have again := ih (1 + extra)
        rw [← Nat.add_assoc] at again
        rw [digits, digits, again, whole, Nat.mul_add_div positive, Nat.mul_add_mod]

theorem digits_value (proper : 1 < base) {ds : List Nat} (small : ∀ d ∈ ds, d < base) :
    digits base ds.length (value base ds) = ds := by
  induction ds with
  | nil => rfl
  | cons d rest ih =>
      have inner : ∀ x ∈ rest, x < base := fun x member => small x (List.mem_cons_of_mem d member)
      have below := value_lt proper inner
      have lead : (d * base ^ rest.length + value base rest) / base ^ rest.length = d := by
        rw [Nat.mul_comm, Nat.mul_add_div (Nat.pow_pos (by omega)), Nat.div_eq_of_lt below,
          Nat.add_zero]
      rw [List.length_cons, digits, value_cons, lead, Nat.mod_eq_of_lt (small d List.mem_cons_self)]
      congr 1
      exact (digits_add_mul d _ rest.length 0).trans (ih inner)

/-- Each digit of a base that is a square, written as two of its root. -/
def halved (root : Nat) (ds : List Nat) : List Nat :=
  ds.flatMap fun d => [d / root, d % root]

@[simp] theorem halved_length (root : Nat) (ds : List Nat) :
    (halved root ds).length = 2 * ds.length := by
  induction ds with
  | nil => rfl
  | cons d rest ih =>
      rw [halved, List.flatMap_cons, List.length_append, ← halved, ih]
      simp only [List.length_cons, List.length_nil]
      omega

theorem value_halved (root : Nat) (ds : List Nat) :
    value root (halved root ds) = value (root * root) ds := by
  induction ds with
  | nil => rfl
  | cons d rest ih =>
      have whole := Nat.div_add_mod' d root
      calc
        value root (halved root (d :: rest)) =
            (d / root * root + d % root) * root ^ (halved root rest).length +
              value root (halved root rest) := by
          change value root ([d / root, d % root] ++ halved root rest) = _
          rw [value_append]
          simp [value]
        _ = d * (root * root) ^ rest.length + value (root * root) rest := by
          rw [whole, halved_length, Nat.pow_mul, Nat.pow_two, ih]
        _ = value (root * root) (d :: rest) := (value_cons d rest).symm

end Digits

end BigEndian
