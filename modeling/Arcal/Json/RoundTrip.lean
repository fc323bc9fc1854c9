import Arcal.Json.ReadBack

/-! Reading the tree of an object without floating-point numbers, and when the destination
then shows what the source showed. -/

namespace Arcal.Json

open Schema Focus
open JsonText (Value)

variable (fp : Floating)

mutual
def Elem.Floatless : Elem → Prop
  | .prim t => Exact t
  | .enum _ _ => True
  | .cls _ body => Members.Floatless body

def Members.Floatless : Members → Prop
  | .nil => True
  | .base _ body rest => Members.Floatless body ∧ Members.Floatless rest
  | .choice variants rest => Variants.Floatless variants ∧ Members.Floatless rest
  | .required _ elem rest => Elem.Floatless elem ∧ Members.Floatless rest
  | .optional _ elem rest => Elem.Floatless elem ∧ Members.Floatless rest
  | .list _ _ elem rest => Elem.Floatless elem ∧ Members.Floatless rest

def Variants.Floatless : Variants → Prop
  | .nil => True
  | .cons _ elem rest => Elem.Floatless elem ∧ Variants.Floatless rest
end

mutual
/-- What the object shows can be said in JSON: its strings are valid UTF-8, its enum items
declared or `enumNotSet`, its choices none or a declared variant. -/
def Elem.Expressible : (e : Elem) → e.Impl → Prop
  | .prim t, v => Encodable t v
  | .enum _ enumValues, v => Declared enumValues v
  | .cls _ body, v => Members.Expressible body v

def Members.Expressible : (ms : Members) → ms.Impl → Prop
  | .nil, _ => True
  | .base _ body rest, v => Members.Expressible body v.1 ∧ Members.Expressible rest v.2
  | .choice variants rest, v =>
      (v.1.ordinal = 0 ∨ (Cdr.Variants.selected variants v.1.ordinal.toNat 1).isSome = true) ∧
        Variants.Expressible variants v.1.ordinal.toNat 1 v.1.store ∧
        Members.Expressible rest v.2
  | .required _ elem rest, v => Elem.Expressible elem v.1 ∧ Members.Expressible rest v.2
  | .optional _ elem rest, v =>
      (v.1.has = true → Elem.Expressible elem v.1.value) ∧ Members.Expressible rest v.2
  | .list _ _ elem rest, v =>
      (∀ item ∈ v.1.items, Elem.Expressible elem item) ∧ Members.Expressible rest v.2

def Variants.Expressible : (vs : Variants) → (ordinal index : Nat) → vs.Impl → Prop
  | .nil, _, _, _ => True
  | .cons _ elem rest, ordinal, index, v =>
      (ordinal = index → Elem.Expressible elem v.1) ∧
        Variants.Expressible rest ordinal (index + 1) v.2
end

mutual
def Elem.reread : (e : Elem) → (v d : e.Impl) → e.Impl
  | .prim _, v, _ => v
  | .enum _ enumValues, v, _ => namesake enumValues v
  | .cls _ body, v, d => Members.reread body v d

def Members.reread : (ms : Members) → (v d : ms.Impl) → ms.Impl
  | .nil, _, _ => ()
  | .base _ body rest, v, d => (Members.reread body v.1 d.1, Members.reread rest v.2 d.2)
  | .choice variants rest, v, d =>
      (Variants.reread variants v.1.ordinal.toNat 1 v.1.store d.1, Members.reread rest v.2 d.2)
  | .required _ elem rest, v, d => (Elem.reread elem v.1 d.1, Members.reread rest v.2 d.2)
  | .optional _ elem rest, v, d =>
      (if v.1.has then ⟨true, Elem.reread elem v.1.value d.1.value⟩ else ⟨false, d.1.value⟩,
        Members.reread rest v.2 d.2)
  | .list _ _ elem rest, v, d =>
      (v.1.map fun item => elem.copy elem.fresh (Elem.reread elem item elem.fresh),
        Members.reread rest v.2 d.2)

def Variants.reread : (vs : Variants) → (ordinal index : Nat) → (v : vs.Impl) →
    ChoiceSlot vs.Impl → ChoiceSlot vs.Impl
  | .nil, _, _, _, slot => slot
  | .cons _ elem rest, ordinal, index, v, slot =>
      if ordinal = index then
        ⟨UInt32.ofNat index, (Elem.reread elem v.1 slot.store.1, slot.store.2)⟩
      else
        let later := Variants.reread rest ordinal (index + 1) v.2 ⟨slot.ordinal, slot.store.2⟩
        ⟨later.ordinal, (slot.store.1, later.store)⟩
end

theorem Variants.reread_past (vs : Variants) {ordinal index : Nat} (past : ordinal < index)
    (v : vs.Impl) (slot : ChoiceSlot vs.Impl) :
    Variants.reread vs ordinal index v slot = slot := by
  cases vs with
  | nil => simp only [Variants.reread]
  | cons _ elem rest =>
      simp only [Variants.reread, if_neg (by omega : ordinal ≠ index)]
      rw [Variants.reread_past rest (by omega) v.2]

mutual
theorem Elem.readBack_eq : (e : Elem) → Elem.Floatless e → (v d : e.Impl) →
    Elem.readBack fp e v d = Elem.reread e v d
  | .prim t, floatless, v, _ => by
      simp only [Elem.Floatless, Elem.readBack, Elem.reread] at floatless ⊢
      exact rereadValue_exact fp floatless v
  | .enum _ _, _, _, _ => by simp only [Elem.readBack, Elem.reread]
  | .cls _ body, floatless, v, d => by
      simp only [Elem.Floatless, Elem.readBack, Elem.reread] at floatless ⊢
      exact Members.readBack_eq body floatless v d

theorem Members.readBack_eq : (ms : Members) → Members.Floatless ms → (v d : ms.Impl) →
    Members.readBack fp ms v d = Members.reread ms v d
  | .nil, _, _, _ => by simp only [Members.readBack, Members.reread]
  | .base _ body rest, floatless, v, d => by
      simp only [Members.Floatless, Members.readBack, Members.reread] at floatless ⊢
      rw [Members.readBack_eq body floatless.1, Members.readBack_eq rest floatless.2]
  | .choice variants rest, floatless, v, d => by
      simp only [Members.Floatless, Members.readBack, Members.reread] at floatless ⊢
      rw [Variants.readBack_eq variants floatless.1, Members.readBack_eq rest floatless.2]
  | .required _ elem rest, floatless, v, d => by
      simp only [Members.Floatless, Members.readBack, Members.reread] at floatless ⊢
      rw [Elem.readBack_eq elem floatless.1, Members.readBack_eq rest floatless.2]
  | .optional _ elem rest, floatless, v, d => by
      simp only [Members.Floatless, Members.readBack, Members.reread] at floatless ⊢
      rw [Elem.readBack_eq elem floatless.1, Members.readBack_eq rest floatless.2]
  | .list _ _ elem rest, floatless, v, d => by
      have each : ∀ item, Elem.readBack fp elem item elem.fresh = Elem.reread elem item elem.fresh :=
        fun item => Elem.readBack_eq elem floatless.1 item elem.fresh
      simp only [Members.Floatless, Members.readBack, Members.reread] at floatless ⊢
      simp only [each, Members.readBack_eq rest floatless.2]

theorem Variants.readBack_eq : (vs : Variants) → Variants.Floatless vs →
    (ordinal index : Nat) → (v : vs.Impl) → (slot : ChoiceSlot vs.Impl) →
    Variants.readBack fp vs ordinal index v slot = Variants.reread vs ordinal index v slot
  | .nil, _, _, _, _, _ => by simp only [Variants.readBack, Variants.reread]
  | .cons _ elem rest, floatless, ordinal, index, v, slot => by
      simp only [Variants.Floatless, Variants.readBack, Variants.reread] at floatless ⊢
      rw [Elem.readBack_eq elem floatless.1, Variants.readBack_eq rest floatless.2]
end

section Shown

variable {leaf : (t : CxxType) → t.Value → Prop} {item : List String → UInt32 → Prop}

mutual
theorem Elem.shows_of_expressible (said : ∀ t v, Exact t → Encodable t v → leaf t v)
    (declared : ∀ enumValues v, Declared enumValues v → item enumValues v) : (e : Elem) →
    Elem.Floatless e → (v : e.Impl) → Elem.Expressible e v → Elem.Shows leaf item e v
  | .prim t, floatless, v, expressible => by
      simp only [Elem.Floatless, Elem.Expressible, Elem.Shows] at floatless expressible ⊢
      exact said t v floatless expressible
  | .enum _ enumValues, _, v, expressible => by
      simp only [Elem.Expressible, Elem.Shows] at expressible ⊢
      exact declared enumValues v expressible
  | .cls _ body, floatless, v, expressible => by
      simp only [Elem.Floatless, Elem.Expressible, Elem.Shows] at floatless expressible ⊢
      exact Members.shows_of_expressible said declared body floatless v expressible

theorem Members.shows_of_expressible (said : ∀ t v, Exact t → Encodable t v → leaf t v)
    (declared : ∀ enumValues v, Declared enumValues v → item enumValues v) : (ms : Members) →
    Members.Floatless ms → (v : ms.Impl) → Members.Expressible ms v →
    Members.Shows leaf item ms v
  | .nil, _, _, _ => by simp only [Members.Shows]
  | .base _ body rest, floatless, v, expressible => by
      simp only [Members.Floatless, Members.Expressible, Members.Shows]
        at floatless expressible ⊢
      exact ⟨Members.shows_of_expressible said declared body floatless.1 v.1 expressible.1,
        Members.shows_of_expressible said declared rest floatless.2 v.2 expressible.2⟩
  | .choice variants rest, floatless, v, expressible => by
      simp only [Members.Floatless, Members.Expressible, Members.Shows]
        at floatless expressible ⊢
      exact ⟨Variants.shows_of_expressible said declared variants floatless.1 _ 1 v.1.store
          expressible.2.1,
        Members.shows_of_expressible said declared rest floatless.2 v.2 expressible.2.2⟩
  | .required _ elem rest, floatless, v, expressible => by
      simp only [Members.Floatless, Members.Expressible, Members.Shows]
        at floatless expressible ⊢
      exact ⟨Elem.shows_of_expressible said declared elem floatless.1 v.1 expressible.1,
        Members.shows_of_expressible said declared rest floatless.2 v.2 expressible.2⟩
  | .optional _ elem rest, floatless, v, expressible => by
      simp only [Members.Floatless, Members.Expressible, Members.Shows]
        at floatless expressible ⊢
      exact ⟨fun present => Elem.shows_of_expressible said declared elem floatless.1 v.1.value
          (expressible.1 present),
        Members.shows_of_expressible said declared rest floatless.2 v.2 expressible.2⟩
  | .list _ _ elem rest, floatless, v, expressible => by
      simp only [Members.Floatless, Members.Expressible, Members.Shows]
        at floatless expressible ⊢
      exact ⟨fun held member => Elem.shows_of_expressible said declared elem floatless.1 held
          (expressible.1 held member),
        Members.shows_of_expressible said declared rest floatless.2 v.2 expressible.2⟩

theorem Variants.shows_of_expressible (said : ∀ t v, Exact t → Encodable t v → leaf t v)
    (declared : ∀ enumValues v, Declared enumValues v → item enumValues v) : (vs : Variants) →
    Variants.Floatless vs → (ordinal index : Nat) → (v : vs.Impl) →
    Variants.Expressible vs ordinal index v → Variants.Shows leaf item vs ordinal index v
  | .nil, _, _, _, _, _ => by simp only [Variants.Shows]
  | .cons _ elem rest, floatless, ordinal, index, v, expressible => by
      simp only [Variants.Floatless, Variants.Expressible, Variants.Shows]
        at floatless expressible ⊢
      exact ⟨fun chosen => Elem.shows_of_expressible said declared elem floatless.1 v.1
          (expressible.1 chosen),
        Variants.shows_of_expressible said declared rest floatless.2 ordinal (index + 1) v.2
          expressible.2⟩
end

end Shown

theorem reads_exact : Reads fp fun t _ => Exact t := by
  intro t v context exactly
  rw [parseValue_tree fp exactly v context, rereadValue_exact fp exactly v]

theorem Elem.deserialize_tree [CaseTable] (e : Elem) (keyed : Elem.Keyed e)
    (floatless : Elem.Floatless e)
    (v : e.Impl) (expressible : Elem.Expressible e v) (d : e.Impl) (context : Bytes) :
    Elem.deserialize fp context e (Elem.tree fp e v) d = .ok () (Elem.reread e v d) := by
  have shown : Elem.Shows (fun t _ => Exact t) (fun _ _ => True) e v :=
    Elem.shows_of_expressible (fun _ _ exactly _ => exactly) (fun _ _ _ => trivial) e floatless v
      expressible
  have named : Elem.Shows (fun t _ => Exact t) Named e v :=
    Elem.shows_of_expressible (fun _ _ exactly _ => exactly) (fun _ _ => .inl) e floatless v
      expressible
  rw [Elem.deserialize_tree_iff (reads_exact fp) e keyed v shown, Elem.readBack_eq fp e floatless]
  exact ⟨named, rfl⟩

mutual
/-- Every enum item the object shows is the first of its name. -/
def Elem.FirstNamed : (e : Elem) → e.Impl → Prop
  | .prim _, _ => True
  | .enum _ enumValues, v => FirstOfName enumValues v
  | .cls _ body, v => Members.FirstNamed body v

def Members.FirstNamed : (ms : Members) → ms.Impl → Prop
  | .nil, _ => True
  | .base _ body rest, v => Members.FirstNamed body v.1 ∧ Members.FirstNamed rest v.2
  | .choice variants rest, v =>
      Variants.FirstNamed variants v.1.ordinal.toNat 1 v.1.store ∧ Members.FirstNamed rest v.2
  | .required _ elem rest, v => Elem.FirstNamed elem v.1 ∧ Members.FirstNamed rest v.2
  | .optional _ elem rest, v =>
      (v.1.has = true → Elem.FirstNamed elem v.1.value) ∧ Members.FirstNamed rest v.2
  | .list _ _ elem rest, v =>
      (∀ item ∈ v.1.items, Elem.FirstNamed elem item) ∧ Members.FirstNamed rest v.2

def Variants.FirstNamed : (vs : Variants) → (ordinal index : Nat) → vs.Impl → Prop
  | .nil, _, _, _ => True
  | .cons _ elem rest, ordinal, index, v =>
      (ordinal = index → Elem.FirstNamed elem v.1) ∧
        Variants.FirstNamed rest ordinal (index + 1) v.2
end

theorem Variants.firstNamed_past (vs : Variants) {ordinal index : Nat} (past : ordinal < index)
    (v : vs.Impl) : Variants.FirstNamed vs ordinal index v := by
  cases vs with
  | nil => simp only [Variants.FirstNamed]
  | cons _ elem rest =>
      simp only [Variants.FirstNamed]
      exact ⟨fun chosen => absurd chosen (by omega),
        Variants.firstNamed_past rest (by omega) v.2⟩

theorem Variants.reread_ordinal (vs : Variants) {ordinal index : Nat}
    (isCase : (Cdr.Variants.selected vs ordinal index).isSome = true) (v : vs.Impl)
    (slot : ChoiceSlot vs.Impl) :
    (Variants.reread vs ordinal index v slot).ordinal = UInt32.ofNat ordinal := by
  cases vs with
  | nil => cases isCase
  | cons _ elem rest =>
      simp only [Cdr.Variants.selected] at isCase
      by_cases here : ordinal = index
      · simp only [Variants.reread, if_pos here]
        rw [here]
      · simp only [if_neg here] at isCase
        simp only [Variants.reread, if_neg here]
        exact Variants.reread_ordinal rest isCase v.2 _

theorem forall₂_map_iff {α : Type} {agrees : α → α → Prop} {result : α → α}
    {good : α → Prop} {items : List α}
    (each : ∀ item ∈ items, (agrees (result item) item ↔ good item)) :
    List.Forall₂ agrees (items.map result) items ↔ ∀ item ∈ items, good item := by
  rw [List.forall₂_map_left_iff, List.forall₂_same]
  constructor
  · intro all item member
    exact (each item member).mp (all item member)
  · intro all item member
    exact (each item member).mpr (all item member)

mutual
/-- A new destination shows the source exactly when every enum item of the source is the
first of its name. -/
theorem Elem.reread_agrees_iff : (e : Elem) → (v d : e.Impl) → Elem.Expressible e v →
    e.IsFresh d → (e.Agrees (Elem.reread e v d) v ↔ Elem.FirstNamed e v)
  | .prim _, _, _, _, _ => by simp only [Elem.Agrees, Elem.reread, Elem.FirstNamed]
  | .enum _ enumValues, v, _, expressible, _ => by
      simp only [Elem.Expressible, Elem.Agrees, Elem.reread, Elem.FirstNamed] at expressible ⊢
      exact namesake_eq_iff expressible
  | .cls _ body, v, d, expressible, fresh => by
      simp only [Elem.Expressible, Elem.IsFresh, Elem.Agrees, Elem.reread, Elem.FirstNamed]
        at expressible fresh ⊢
      exact Members.reread_agrees_iff body v d expressible fresh

theorem Members.reread_agrees_iff : (ms : Members) → (v d : ms.Impl) →
    Members.Expressible ms v → ms.IsFresh d →
    (ms.Agrees (Members.reread ms v d) v ↔ Members.FirstNamed ms v)
  | .nil, _, _, _, _ => by simp only [Members.Agrees, Members.FirstNamed]
  | .base _ body rest, v, d, expressible, fresh => by
      simp only [Members.Expressible, Members.IsFresh, Members.Agrees, Members.reread,
        Members.FirstNamed] at expressible fresh ⊢
      rw [Members.reread_agrees_iff body v.1 d.1 expressible.1 fresh.1,
        Members.reread_agrees_iff rest v.2 d.2 expressible.2 fresh.2]
  | .choice variants rest, v, d, expressible, fresh => by
      simp only [Members.Expressible, Members.IsFresh, Members.Agrees, Members.reread,
        Members.FirstNamed] at expressible fresh ⊢
      have ordinal : (Variants.reread variants v.1.ordinal.toNat 1 v.1.store d.1).ordinal =
          v.1.ordinal := by
        rcases expressible.1 with none' | isCase
        · rw [none', Variants.reread_past variants (by decide), fresh.1]
        · rw [Variants.reread_ordinal variants isCase, UInt32.ofNat_toNat]
      rw [Variants.reread_agrees_iff variants v.1.ordinal.toNat 1 v.1.store d.1 expressible.2.1
          fresh.2.1,
        Members.reread_agrees_iff rest v.2 d.2 expressible.2.2 fresh.2.2]
      constructor
      · intro same
        exact same.2
      · intro named
        exact ⟨ordinal, named⟩
  | .required _ elem rest, v, d, expressible, fresh => by
      simp only [Members.Expressible, Members.IsFresh, Members.Agrees, Members.reread,
        Members.FirstNamed] at expressible fresh ⊢
      rw [Elem.reread_agrees_iff elem v.1 d.1 expressible.1 fresh.1,
        Members.reread_agrees_iff rest v.2 d.2 expressible.2 fresh.2]
  | .optional _ elem rest, v, d, expressible, fresh => by
      simp only [Members.Expressible, Members.IsFresh, Members.Agrees, Members.reread,
        Members.FirstNamed] at expressible fresh ⊢
      rw [Members.reread_agrees_iff rest v.2 d.2 expressible.2 fresh.2.2]
      cases present : v.1.has with
      | true =>
          have inner := Elem.reread_agrees_iff elem v.1.value d.1.value (expressible.1 present)
            fresh.2.1
          simp only [if_true, true_and, forall_const, inner]
      | false => simp
  | .list _ _ elem rest, v, d, expressible, fresh => by
      simp only [Members.Expressible, Members.IsFresh, Members.Agrees, Members.reread,
        Members.FirstNamed, AccessorList.map] at expressible fresh ⊢
      rw [Members.reread_agrees_iff rest v.2 d.2 expressible.2 fresh.2,
        forall₂_map_iff fun item member =>
          (elem.copy_agrees_iff elem.fresh (Elem.reread elem item elem.fresh) item).trans
            (Elem.reread_agrees_iff elem item elem.fresh (expressible.1 item member)
              elem.fresh_isFresh)]

theorem Variants.reread_agrees_iff : (vs : Variants) → (ordinal index : Nat) → (v : vs.Impl) →
    (slot : ChoiceSlot vs.Impl) → Variants.Expressible vs ordinal index v →
    vs.IsFresh slot.store →
    (vs.Agrees ordinal index (Variants.reread vs ordinal index v slot).store v ↔
      Variants.FirstNamed vs ordinal index v)
  | .nil, _, _, _, _, _, _ => by simp only [Variants.Agrees, Variants.FirstNamed]
  | .cons _ elem rest, ordinal, index, v, slot, expressible, fresh => by
      simp only [Variants.Expressible, Variants.IsFresh, Variants.Agrees, Variants.reread,
        Variants.FirstNamed] at expressible fresh ⊢
      by_cases here : ordinal = index
      · have behind : ordinal < index + 1 := by omega
        have inner := Elem.reread_agrees_iff elem v.1 slot.store.1 (expressible.1 here) fresh.1
        simp only [if_pos here, inner, Variants.firstNamed_past rest behind v.2,
          Variants.agrees_past rest behind]
      · have inner := Variants.reread_agrees_iff rest ordinal (index + 1) v.2
          ⟨slot.ordinal, slot.store.2⟩ expressible.2 fresh.2
        simp only [if_neg here, inner]
        constructor
        · intro same
          exact ⟨fun chosen => absurd chosen here, same.2⟩
        · intro named
          exact ⟨fun chosen => absurd chosen here, named.2⟩
end

structure Parsable (value : Value) : Prop where
  sound : value.Sound (representable fp)
  encoded : value.Encoded

theorem Elem.tree_parsable (e : Elem) (floatless : Elem.Floatless e) (v : e.Impl)
    (expressible : Elem.Expressible e v) : Parsable fp (Elem.tree fp e v) where
  sound := by
    rw [Elem.holds_tree_iff fp (compositional_sound _)]
    refine Elem.shows_of_expressible (fun _ v exactly _ => tree_sound fp exactly v) ?_ e floatless v
      expressible
    intro enumValues v _
    trivial
  encoded := by
    rw [Elem.holds_tree_iff fp compositional_encoded]
    refine Elem.shows_of_expressible (fun _ _ _ => tree_encoded fp) ?_ e floatless v expressible
    intro enumValues v _
    simpa only [Value.Encoded] using valid_toName

end Arcal.Json
