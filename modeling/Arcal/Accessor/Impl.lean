import Arcal.Base.Value
import Arcal.Schema.Layout

/-! The objects of the generated `Impl` classes: their storage, a fresh object, `copy`
and `reset`, and when two objects show the same values through their getters. -/

namespace Arcal.Schema

/-- Storage of an optional field. `clearX` only drops the flag, so the value stays behind. -/
structure OptSlot (α : Type) where
  has : Bool
  value : α

/-- `choiceOrdinal_` and the storage of every variant, chosen or not. -/
structure ChoiceSlot (σ : Type) where
  ordinal : UInt32
  store : σ

/-- A `BoundedListImpl`, or a `SimpleListImpl` when there is no bound. -/
structure AccessorList (maxOccurs : Option Nat) (α : Type) where
  items : List α
  bounded : ∀ limit ∈ maxOccurs, items.length ≤ limit

namespace AccessorList

variable {maxOccurs : Option Nat} {α β : Type}

def clear : AccessorList maxOccurs α := ⟨[], fun _ _ => Nat.zero_le _⟩

def pushBack (list : AccessorList maxOccurs α) (item : α) :
    Except Exc (AccessorList maxOccurs α) :=
  if room : ∀ limit ∈ maxOccurs, list.items.length < limit then
    .ok ⟨list.items ++ [item], by
      intro limit bound
      rw [List.length_append, List.length_singleton]
      exact room limit bound⟩
  else
    .error (.uciException
      (utf8 "BoundedList::push_back exceeds maxOccurs=" ++ decimal (maxOccurs.getD 0)))

def map (f : α → β) (list : AccessorList maxOccurs α) : AccessorList maxOccurs β :=
  ⟨list.items.map f, by
    intro limit bound
    rw [List.length_map]
    exact list.bounded limit bound⟩

theorem pushBack_room (list : AccessorList maxOccurs α) (item : α)
    (room : ∀ limit ∈ maxOccurs, list.items.length < limit) :
    ∃ longer, list.pushBack item = .ok longer ∧ longer.items = list.items ++ [item] :=
  ⟨_, dif_pos room, rfl⟩

theorem pushBack_items {list longer : AccessorList maxOccurs α} {item : α}
    (run : list.pushBack item = .ok longer) : longer.items = list.items ++ [item] := by
  unfold pushBack at run
  split at run
  · injection run with same
    rw [← same]
  · cases run

theorem ext {left right : AccessorList maxOccurs α} (same : left.items = right.items) :
    left = right := by
  cases left
  cases right
  cases same
  rfl

end AccessorList

mutual
@[reducible] def Elem.Impl : Elem → Type
  | .prim t => t.Value
  | .enum _ _ => UInt32
  | .cls _ body => body.Impl

@[reducible] def Members.Impl : Members → Type
  | .nil => Unit
  | .base _ body rest => body.Impl × rest.Impl
  | .choice variants rest => ChoiceSlot variants.Impl × rest.Impl
  | .required _ elem rest => elem.Impl × rest.Impl
  | .optional _ elem rest => OptSlot elem.Impl × rest.Impl
  | .list _ maxOccurs elem rest => AccessorList maxOccurs elem.Impl × rest.Impl

@[reducible] def Variants.Impl : Variants → Type
  | .nil => Unit
  | .cons _ elem rest => elem.Impl × rest.Impl
end

mutual
/-- A new object. The numbers default initialisation leaves undetermined are zero here;
`IsFresh` admits every content they may have. -/
def Elem.fresh : (e : Elem) → e.Impl
  | .prim t => t.zero
  | .enum _ _ => (0 : UInt32)
  | .cls _ body => body.fresh

def Members.fresh : (ms : Members) → ms.Impl
  | .nil => ()
  | .base _ body rest => (body.fresh, rest.fresh)
  | .choice variants rest => (⟨0, variants.fresh⟩, rest.fresh)
  | .required _ elem rest => (elem.fresh, rest.fresh)
  | .optional _ elem rest => (⟨false, elem.fresh⟩, rest.fresh)
  | .list _ _ _ rest => (.clear, rest.fresh)

def Variants.fresh : (vs : Variants) → vs.Impl
  | .nil => ()
  | .cons _ elem rest => (elem.fresh, rest.fresh)
end

def Elem.reset (e : Elem) (_ : e.Impl) : e.Impl := e.fresh

mutual
def Elem.IsFresh : (e : Elem) → e.Impl → Prop
  | .prim t, v => t.isClass = true → v = t.zero
  | .enum _ _, v => v = (0 : UInt32)
  | .cls _ body, v => body.IsFresh v

def Members.IsFresh : (ms : Members) → ms.Impl → Prop
  | .nil, _ => True
  | .base _ body rest, v => body.IsFresh v.1 ∧ rest.IsFresh v.2
  | .choice variants rest, v =>
      v.1.ordinal = 0 ∧ variants.IsFresh v.1.store ∧ rest.IsFresh v.2
  | .required _ elem rest, v => elem.IsFresh v.1 ∧ rest.IsFresh v.2
  | .optional _ elem rest, v => v.1.has = false ∧ elem.IsFresh v.1.value ∧ rest.IsFresh v.2
  | .list _ _ _ rest, v => v.1.items = [] ∧ rest.IsFresh v.2

def Variants.IsFresh : (vs : Variants) → vs.Impl → Prop
  | .nil, _ => True
  | .cons _ elem rest, v => elem.IsFresh v.1 ∧ rest.IsFresh v.2
end

mutual
/-- `dst.copy(src)`: absent optionals and variants that are not chosen keep what `dst` had. -/
def Elem.copy : (e : Elem) → (dst src : e.Impl) → e.Impl
  | .prim _, _, src => src
  | .enum _ _, _, src => src
  | .cls _ body, dst, src => body.copy dst src

def Members.copy : (ms : Members) → (dst src : ms.Impl) → ms.Impl
  | .nil, _, _ => ()
  | .base _ body rest, dst, src => (body.copy dst.1 src.1, rest.copy dst.2 src.2)
  | .choice variants rest, dst, src =>
      (⟨src.1.ordinal, variants.copy src.1.ordinal.toNat 1 dst.1.store src.1.store⟩,
        rest.copy dst.2 src.2)
  | .required _ elem rest, dst, src => (elem.copy dst.1 src.1, rest.copy dst.2 src.2)
  | .optional _ elem rest, dst, src =>
      (⟨src.1.has, if src.1.has then elem.copy dst.1.value src.1.value else dst.1.value⟩,
        rest.copy dst.2 src.2)
  | .list _ _ elem rest, dst, src => (src.1.map (elem.copy elem.fresh), rest.copy dst.2 src.2)

def Variants.copy : (vs : Variants) → (ordinal index : Nat) → (dst src : vs.Impl) → vs.Impl
  | .nil, _, _, _, _ => ()
  | .cons _ elem rest, ordinal, index, dst, src =>
      (if ordinal = index then elem.copy dst.1 src.1 else dst.1,
        rest.copy ordinal (index + 1) dst.2 src.2)
end

mutual
/-- Two objects show the same values: base parts, the choice and the chosen variant,
fields, lists, and optionals with their presence. -/
def Elem.Agrees : (e : Elem) → (left right : e.Impl) → Prop
  | .prim _, left, right => left = right
  | .enum _ _, left, right => left = right
  | .cls _ body, left, right => body.Agrees left right

def Members.Agrees : (ms : Members) → (left right : ms.Impl) → Prop
  | .nil, _, _ => True
  | .base _ body rest, left, right => body.Agrees left.1 right.1 ∧ rest.Agrees left.2 right.2
  | .choice variants rest, left, right =>
      left.1.ordinal = right.1.ordinal ∧
        variants.Agrees right.1.ordinal.toNat 1 left.1.store right.1.store ∧
        rest.Agrees left.2 right.2
  | .required _ elem rest, left, right => elem.Agrees left.1 right.1 ∧ rest.Agrees left.2 right.2
  | .optional _ elem rest, left, right =>
      left.1.has = right.1.has ∧
        (right.1.has = true → elem.Agrees left.1.value right.1.value) ∧
        rest.Agrees left.2 right.2
  | .list _ _ elem rest, left, right =>
      List.Forall₂ elem.Agrees left.1.items right.1.items ∧ rest.Agrees left.2 right.2

def Variants.Agrees : (vs : Variants) → (ordinal index : Nat) → (left right : vs.Impl) → Prop
  | .nil, _, _, _, _ => True
  | .cons _ elem rest, ordinal, index, left, right =>
      (ordinal = index → elem.Agrees left.1 right.1) ∧
        rest.Agrees ordinal (index + 1) left.2 right.2
end

theorem Variants.agrees_past (vs : Variants) {ordinal index : Nat} (past : ordinal < index)
    (left right : vs.Impl) : vs.Agrees ordinal index left right := by
  cases vs with
  | nil => simp only [Variants.Agrees]
  | cons _ elem rest =>
      simp only [Variants.Agrees]
      exact ⟨fun chosen => absurd chosen (by omega),
        Variants.agrees_past rest (by omega) left.2 right.2⟩

section Copy

mutual
theorem Elem.agrees_refl : (e : Elem) → (v : e.Impl) → e.Agrees v v
  | .prim _, _ => by simp only [Elem.Agrees]
  | .enum _ _, _ => by simp only [Elem.Agrees]
  | .cls _ body, v => by
      simp only [Elem.Agrees]
      exact body.agrees_refl v

theorem Members.agrees_refl : (ms : Members) → (v : ms.Impl) → ms.Agrees v v
  | .nil, _ => by simp only [Members.Agrees]
  | .base _ body rest, v => by
      simp only [Members.Agrees]
      exact ⟨body.agrees_refl v.1, rest.agrees_refl v.2⟩
  | .choice variants rest, v => by
      simp only [Members.Agrees]
      exact ⟨trivial, variants.agrees_refl _ 1 v.1.store, rest.agrees_refl v.2⟩
  | .required _ elem rest, v => by
      simp only [Members.Agrees]
      exact ⟨elem.agrees_refl v.1, rest.agrees_refl v.2⟩
  | .optional _ elem rest, v => by
      simp only [Members.Agrees]
      exact ⟨trivial, fun _ => elem.agrees_refl v.1.value, rest.agrees_refl v.2⟩
  | .list _ _ elem rest, v => by
      simp only [Members.Agrees]
      exact ⟨List.forall₂_same.mpr fun item _ => elem.agrees_refl item, rest.agrees_refl v.2⟩

theorem Variants.agrees_refl : (vs : Variants) → (ordinal index : Nat) → (v : vs.Impl) →
    vs.Agrees ordinal index v v
  | .nil, _, _, _ => by simp only [Variants.Agrees]
  | .cons _ elem rest, ordinal, index, v => by
      simp only [Variants.Agrees]
      exact ⟨fun _ => elem.agrees_refl v.1, rest.agrees_refl ordinal (index + 1) v.2⟩
end

mutual
theorem Elem.agrees_symm : (e : Elem) → (left right : e.Impl) → e.Agrees left right →
    e.Agrees right left
  | .prim _, _, _, same => by
      simp only [Elem.Agrees] at same ⊢
      exact same.symm
  | .enum _ _, _, _, same => by
      simp only [Elem.Agrees] at same ⊢
      exact same.symm
  | .cls _ body, left, right, same => by
      simp only [Elem.Agrees] at same ⊢
      exact body.agrees_symm left right same

theorem Members.agrees_symm : (ms : Members) → (left right : ms.Impl) → ms.Agrees left right →
    ms.Agrees right left
  | .nil, _, _, _ => by simp only [Members.Agrees]
  | .base _ body rest, left, right, same => by
      simp only [Members.Agrees] at same ⊢
      exact ⟨body.agrees_symm _ _ same.1, rest.agrees_symm _ _ same.2⟩
  | .choice variants rest, left, right, same => by
      simp only [Members.Agrees] at same ⊢
      rcases same with ⟨ordinal, stores, others⟩
      rw [ordinal]
      exact ⟨rfl, variants.agrees_symm _ 1 _ _ stores, rest.agrees_symm _ _ others⟩
  | .required _ elem rest, left, right, same => by
      simp only [Members.Agrees] at same ⊢
      exact ⟨elem.agrees_symm _ _ same.1, rest.agrees_symm _ _ same.2⟩
  | .optional _ elem rest, left, right, same => by
      simp only [Members.Agrees] at same ⊢
      rcases same with ⟨presence, values, others⟩
      refine ⟨presence.symm, fun present => ?_, rest.agrees_symm _ _ others⟩
      exact elem.agrees_symm _ _ (values (presence ▸ present))
  | .list _ _ elem rest, left, right, same => by
      simp only [Members.Agrees] at same ⊢
      exact ⟨(same.1.imp fun item other => elem.agrees_symm item other).flip,
        rest.agrees_symm _ _ same.2⟩

theorem Variants.agrees_symm : (vs : Variants) → (ordinal index : Nat) →
    (left right : vs.Impl) → vs.Agrees ordinal index left right →
    vs.Agrees ordinal index right left
  | .nil, _, _, _, _, _ => by simp only [Variants.Agrees]
  | .cons _ elem rest, ordinal, index, left, right, same => by
      simp only [Variants.Agrees] at same ⊢
      exact ⟨fun chosen => elem.agrees_symm _ _ (same.1 chosen),
        rest.agrees_symm ordinal (index + 1) _ _ same.2⟩
end

theorem forall₂_trans {α : Type} {related : α → α → Prop}
    (trans : ∀ a b c, related a b → related b c → related a c) {xs ys zs : List α}
    (left : List.Forall₂ related xs ys) (right : List.Forall₂ related ys zs) :
    List.Forall₂ related xs zs := by
  induction left generalizing zs with
  | nil => exact right
  | cons one _ ih =>
      cases right with
      | cons two more => exact .cons (trans _ _ _ one two) (ih more)

mutual
theorem Elem.agrees_trans : (e : Elem) → (first second third : e.Impl) →
    e.Agrees first second → e.Agrees second third → e.Agrees first third
  | .prim _, _, _, _, left, right => by
      simp only [Elem.Agrees] at left right ⊢
      exact left.trans right
  | .enum _ _, _, _, _, left, right => by
      simp only [Elem.Agrees] at left right ⊢
      exact left.trans right
  | .cls _ body, first, second, third, left, right => by
      simp only [Elem.Agrees] at left right ⊢
      exact body.agrees_trans first second third left right

theorem Members.agrees_trans : (ms : Members) → (first second third : ms.Impl) →
    ms.Agrees first second → ms.Agrees second third → ms.Agrees first third
  | .nil, _, _, _, _, _ => by simp only [Members.Agrees]
  | .base _ body rest, _, _, _, left, right => by
      simp only [Members.Agrees] at left right ⊢
      exact ⟨body.agrees_trans _ _ _ left.1 right.1, rest.agrees_trans _ _ _ left.2 right.2⟩
  | .choice variants rest, _, _, _, left, right => by
      simp only [Members.Agrees] at left right ⊢
      rcases left with ⟨leftOrdinal, leftStores, leftOthers⟩
      rcases right with ⟨rightOrdinal, rightStores, rightOthers⟩
      rw [rightOrdinal] at leftStores
      exact ⟨leftOrdinal.trans rightOrdinal,
        variants.agrees_trans _ 1 _ _ _ leftStores rightStores,
        rest.agrees_trans _ _ _ leftOthers rightOthers⟩
  | .required _ elem rest, _, _, _, left, right => by
      simp only [Members.Agrees] at left right ⊢
      exact ⟨elem.agrees_trans _ _ _ left.1 right.1, rest.agrees_trans _ _ _ left.2 right.2⟩
  | .optional _ elem rest, _, _, _, left, right => by
      simp only [Members.Agrees] at left right ⊢
      rcases left with ⟨leftPresence, leftValues, leftOthers⟩
      rcases right with ⟨rightPresence, rightValues, rightOthers⟩
      refine ⟨leftPresence.trans rightPresence, fun present => ?_,
        rest.agrees_trans _ _ _ leftOthers rightOthers⟩
      exact elem.agrees_trans _ _ _ (leftValues (rightPresence.trans present))
        (rightValues present)
  | .list _ _ elem rest, first, second, third, left, right => by
      simp only [Members.Agrees] at left right ⊢
      exact ⟨forall₂_trans (fun one two three => elem.agrees_trans one two three) left.1 right.1,
        rest.agrees_trans _ _ _ left.2 right.2⟩

theorem Variants.agrees_trans : (vs : Variants) → (ordinal index : Nat) →
    (first second third : vs.Impl) → vs.Agrees ordinal index first second →
    vs.Agrees ordinal index second third → vs.Agrees ordinal index first third
  | .nil, _, _, _, _, _, _, _ => by simp only [Variants.Agrees]
  | .cons _ elem rest, ordinal, index, _, _, _, left, right => by
      simp only [Variants.Agrees] at left right ⊢
      exact ⟨fun chosen => elem.agrees_trans _ _ _ (left.1 chosen) (right.1 chosen),
        rest.agrees_trans ordinal (index + 1) _ _ _ left.2 right.2⟩
end

mutual
theorem Elem.copy_agrees : (e : Elem) → (dst src : e.Impl) → e.Agrees (e.copy dst src) src
  | .prim _, _, _ => by simp only [Elem.Agrees, Elem.copy]
  | .enum _ _, _, _ => by simp only [Elem.Agrees, Elem.copy]
  | .cls _ body, dst, src => by
      simp only [Elem.Agrees, Elem.copy]
      exact body.copy_agrees dst src

theorem Members.copy_agrees : (ms : Members) → (dst src : ms.Impl) →
    ms.Agrees (ms.copy dst src) src
  | .nil, _, _ => by simp only [Members.Agrees]
  | .base _ body rest, dst, src => by
      simp only [Members.Agrees, Members.copy]
      exact ⟨body.copy_agrees dst.1 src.1, rest.copy_agrees dst.2 src.2⟩
  | .choice variants rest, dst, src => by
      simp only [Members.Agrees, Members.copy]
      exact ⟨trivial, variants.copy_agrees _ 1 dst.1.store src.1.store,
        rest.copy_agrees dst.2 src.2⟩
  | .required _ elem rest, dst, src => by
      simp only [Members.Agrees, Members.copy]
      exact ⟨elem.copy_agrees dst.1 src.1, rest.copy_agrees dst.2 src.2⟩
  | .optional _ elem rest, dst, src => by
      simp only [Members.Agrees, Members.copy]
      refine ⟨trivial, fun present => ?_, rest.copy_agrees dst.2 src.2⟩
      rw [if_pos present]
      exact elem.copy_agrees dst.1.value src.1.value
  | .list _ _ elem rest, dst, src => by
      simp only [Members.Agrees, Members.copy, AccessorList.map]
      refine ⟨?_, rest.copy_agrees dst.2 src.2⟩
      rw [List.forall₂_map_left_iff]
      exact List.forall₂_same.mpr fun item _ => elem.copy_agrees elem.fresh item

theorem Variants.copy_agrees : (vs : Variants) → (ordinal index : Nat) → (dst src : vs.Impl) →
    vs.Agrees ordinal index (vs.copy ordinal index dst src) src
  | .nil, _, _, _, _ => by simp only [Variants.Agrees]
  | .cons _ elem rest, ordinal, index, dst, src => by
      simp only [Variants.Agrees, Variants.copy]
      refine ⟨fun chosen => ?_, rest.copy_agrees ordinal (index + 1) dst.2 src.2⟩
      rw [if_pos chosen]
      exact elem.copy_agrees dst.1 src.1
end

theorem Elem.copy_agrees_iff (e : Elem) (dst src other : e.Impl) :
    e.Agrees (e.copy dst src) other ↔ e.Agrees src other := by
  have same := e.copy_agrees dst src
  constructor
  · intro shown
    exact e.agrees_trans _ _ _ (e.agrees_symm _ _ same) shown
  · intro shown
    exact e.agrees_trans _ _ _ same shown

mutual
theorem Elem.fresh_isFresh : (e : Elem) → e.IsFresh e.fresh
  | .prim _ => by
      simp only [Elem.IsFresh, Elem.fresh]
      exact fun _ => trivial
  | .enum _ _ => by simp only [Elem.IsFresh, Elem.fresh]
  | .cls _ body => by
      simp only [Elem.IsFresh, Elem.fresh]
      exact body.fresh_isFresh

theorem Members.fresh_isFresh : (ms : Members) → ms.IsFresh ms.fresh
  | .nil => by simp only [Members.IsFresh]
  | .base _ body rest => by
      simp only [Members.IsFresh, Members.fresh]
      exact ⟨body.fresh_isFresh, rest.fresh_isFresh⟩
  | .choice variants rest => by
      simp only [Members.IsFresh, Members.fresh]
      exact ⟨trivial, variants.fresh_isFresh, rest.fresh_isFresh⟩
  | .required _ elem rest => by
      simp only [Members.IsFresh, Members.fresh]
      exact ⟨elem.fresh_isFresh, rest.fresh_isFresh⟩
  | .optional _ elem rest => by
      simp only [Members.IsFresh, Members.fresh]
      exact ⟨trivial, elem.fresh_isFresh, rest.fresh_isFresh⟩
  | .list _ _ _ rest => by
      simp only [Members.IsFresh, Members.fresh]
      exact ⟨rfl, rest.fresh_isFresh⟩

theorem Variants.fresh_isFresh : (vs : Variants) → vs.IsFresh vs.fresh
  | .nil => by simp only [Variants.IsFresh]
  | .cons _ elem rest => by
      simp only [Variants.IsFresh, Variants.fresh]
      exact ⟨elem.fresh_isFresh, rest.fresh_isFresh⟩
end

end Copy

def sampleTrack : trackLayout.Impl :=
  ((UUID.nil, ⟨true, utf8 "hdr"⟩, ()), ⟨2, (0, (UUID.nil, ⟨false, []⟩, ()), ())⟩,
    ⟨true, (1 : UInt32)⟩, ⟨[-2, 5], by decide⟩, ⟨[(UUID.nil, ⟨true, []⟩, ())], by decide⟩, ())

def speedTrack : trackLayout.Impl :=
  ((UUID.nil, ⟨true, utf8 "hdr"⟩, ()),
    ⟨1, ((0x3ff8000000000000 : UInt64), (UUID.nil, ⟨false, []⟩, ()), ())⟩,
    ⟨true, (1 : UInt32)⟩, ⟨[-2, 5], by decide⟩, ⟨[(UUID.nil, ⟨false, []⟩, ())], by decide⟩, ())

def unlabelledHeader : headerLayout.Impl := (UUID.nil, ⟨false, []⟩, ())

def labelledHeader (label : Bytes) : headerLayout.Impl := (UUID.nil, ⟨true, label⟩, ())

end Arcal.Schema
