import Arcal.Accessor.BoundedList
import Mathlib.Data.Set.List

/-! The objects as they are stored, where a list is an object of its class with nothing but its
operations to keep the bound. The objects that keep all bounds are those an `Impl` stands for. -/

namespace Arcal.Schema

open Focus (attempt each)
open InPlace (bind_ok)
open Simulation

/-- The object of a list class: a `BoundedListImpl`, or the vector of a `SimpleListImpl`. -/
@[reducible] def ListStorage (maxOccurs : Option Nat) (StorageT : Type) : Type :=
  match maxOccurs with
  | some _ => BoundedListImpl StorageT
  | none => List StorageT

namespace ListStorage

variable {T StorageT α : Type}

def init : (maxOccurs : Option Nat) → ListStorage maxOccurs StorageT
  | some limit => BoundedListImpl.init limit
  | none => []

def items : (maxOccurs : Option Nat) → ListStorage maxOccurs StorageT → List StorageT
  | some _, list => list.data
  | none, list => list

def clear : (maxOccurs : Option Nat) → EStateM Exc (ListStorage maxOccurs StorageT) Unit
  | some _ => BoundedListImpl.clear
  | none => (set ([] : List StorageT) : EStateM Exc (List StorageT) PUnit)

def pushBack (copy : T → Except Exc StorageT) (v : T) :
    (maxOccurs : Option Nat) → EStateM Exc (ListStorage maxOccurs StorageT) Unit
  | some _ => BoundedListImpl.pushBack copy v
  | none => do
      let made ← attempt (copy v)
      modify fun list => list ++ [made]

/-- The loop of `copy`: the list is cleared, then every item of the other one is pushed back. -/
def copyItems (copy : StorageT → Except Exc StorageT) (maxOccurs : Option Nat)
    (src : ListStorage maxOccurs StorageT) : EStateM Exc (ListStorage maxOccurs StorageT) Unit := do
  clear maxOccurs
  each (fun item => pushBack copy item maxOccurs) (items maxOccurs src)

def copied (copy : StorageT → Except Exc StorageT) (maxOccurs : Option Nat)
    (dst src : ListStorage maxOccurs StorageT) : Except Exc (ListStorage maxOccurs StorageT) :=
  match copyItems copy maxOccurs src dst with
  | .ok _ list => .ok list
  | .error e _ => .error e

def Within (inside : StorageT → Prop) :
    (maxOccurs : Option Nat) → ListStorage maxOccurs StorageT → Prop
  | some limit, list => list.maxOccurs = limit ∧ list.size ≤ limit ∧ ∀ item ∈ list.data, inside item
  | none, list => ∀ item ∈ list, inside item

def ofList (f : α → StorageT) :
    (maxOccurs : Option Nat) → AccessorList maxOccurs α → ListStorage maxOccurs StorageT
  | some limit, list => ⟨limit, list.items.map f⟩
  | none, list => list.items.map f

theorem ofList_within {f : α → StorageT} {inside : StorageT → Prop} (all : ∀ v, inside (f v)) :
    (maxOccurs : Option Nat) → (list : AccessorList maxOccurs α) →
    Within inside maxOccurs (ofList f maxOccurs list)
  | some limit, list => by
      refine ⟨rfl, ?_, ?_⟩
      · rw [BoundedListImpl.size, ofList, List.length_map]
        exact list.bounded limit rfl
      · intro item member
        rcases List.mem_map.mp member with ⟨v, _, same⟩
        rw [← same]
        exact all v
  | none, list => by
      intro item member
      rcases List.mem_map.mp member with ⟨v, _, same⟩
      rw [← same]
      exact all v

theorem exists_map_eq {f : α → StorageT} {data : List StorageT}
    (each : ∀ item ∈ data, ∃ v, f v = item) : ∃ items : List α, items.map f = data := by
  have range : data ∈ Set.range (List.map f) := by
    rw [Set.range_list_map]
    exact each
  exact range

theorem exists_ofList {f : α → StorageT} {inside : StorageT → Prop}
    (all : ∀ item, inside item → ∃ v, f v = item) :
    (maxOccurs : Option Nat) → (list : ListStorage maxOccurs StorageT) →
    Within inside maxOccurs list → ∃ held, ofList f maxOccurs held = list
  | some limit, list, within => by
      rcases within with ⟨bound, short, deep⟩
      rcases exists_map_eq (fun item member => all item (deep item member)) with ⟨items, same⟩
      have fits : ∀ most ∈ some limit, items.length ≤ most := by
        intro most bound'
        rw [← Option.some.inj bound', ← List.length_map f, same]
        exact short
      refine ⟨⟨items, fits⟩, ?_⟩
      rcases list with ⟨maxOccurs, data⟩
      simp only at bound same
      simp only [ofList, same, bound]
  | none, list, within => by
      rcases exists_map_eq (fun item member => all item (within item member)) with ⟨items, same⟩
      exact ⟨⟨items, nofun⟩, same⟩

theorem clear_seen (f : α → StorageT) : (maxOccurs : Option Nat) →
    Seen (ofList f maxOccurs) id (set (AccessorList.clear : AccessorList maxOccurs α))
      (clear maxOccurs)
  | some _ => fun _ => rfl
  | none => fun _ => rfl

theorem pushBack_seen {f : α → StorageT} {copy : T → Except Exc StorageT} {v : T} {made : α}
    (makes : copy v = .ok (f made)) : (maxOccurs : Option Nat) →
    Seen (ofList f maxOccurs) id (Focus.modifyOrThrow fun list => list.pushBack made)
      (pushBack copy v maxOccurs)
  | some limit => by
      intro list
      rw [pushBack, BoundedListImpl.pushBack, makes]
      by_cases room : list.items.length < limit
      · have fits : ∀ most ∈ some limit, list.items.length < most := fun _ bound =>
          Option.some.inj bound ▸ room
        have stored : (ofList f (some limit) list).data.length <
            (ofList f (some limit) list).maxOccurs := by
          simpa only [ofList, List.length_map] using room
        rw [BoundedListImpl.pushMade_run stored]
        simp only [Focus.modifyOrThrow, AccessorList.pushBack, dif_pos fits, image, ofList,
          List.map_append, List.map_cons, List.map_nil, id_eq]
      · have full : ¬ ∀ most ∈ some limit, list.items.length < most := fun all =>
          room (all limit rfl)
        have stored : (ofList f (some limit) list).maxOccurs ≤
            (ofList f (some limit) list).data.length := by
          simpa only [ofList, List.length_map] using Nat.not_lt.mp room
        rw [BoundedListImpl.pushMade_full stored]
        simp only [Focus.modifyOrThrow, AccessorList.pushBack, dif_neg full, image, ofList,
          Option.getD_some]
  | none => by
      intro list
      have fits : ∀ most ∈ (none : Option Nat), list.items.length < most := by simp
      rw [pushBack, makes]
      simp only [Focus.modifyOrThrow, AccessorList.pushBack, dif_pos fits, image, ofList,
        List.map_append, List.map_cons, List.map_nil, id_eq]
      rfl

theorem each_pushBack {f : α → StorageT} {copy : StorageT → Except Exc StorageT} {made : α → α}
    {maxOccurs : Option Nat} (makes : ∀ v, copy (f v) = .ok (f (made v))) (rest : List α)
    (list : AccessorList maxOccurs α)
    (room : ∀ limit ∈ maxOccurs, list.items.length + rest.length ≤ limit) :
    ∃ whole : AccessorList maxOccurs α, whole.items = list.items ++ rest.map made ∧
      each (fun item => pushBack copy item maxOccurs) (rest.map f) (ofList f maxOccurs list) =
        .ok () (ofList f maxOccurs whole) := by
  induction rest generalizing list with
  | nil => exact ⟨list, (List.append_nil _).symm, rfl⟩
  | cons item rest ih =>
      have here : ∀ limit ∈ maxOccurs, list.items.length < limit := by
        intro limit bound
        have all := room limit bound
        rw [List.length_cons] at all
        omega
      rcases list.pushBack_room (made item) here with ⟨longer, push, grown⟩
      have left : ∀ limit ∈ maxOccurs, longer.items.length + rest.length ≤ limit := by
        intro limit bound
        have all := room limit bound
        rw [List.length_cons] at all
        rw [grown, List.length_append, List.length_singleton]
        omega
      rcases ih longer left with ⟨whole, shown, run⟩
      have first := pushBack_seen (makes item) maxOccurs list
      simp only [Focus.modifyOrThrow, push, image, id_eq] at first
      refine ⟨whole, ?_, ?_⟩
      · rw [shown, grown, List.append_assoc, List.singleton_append, List.map_cons]
      · rw [List.map_cons, each, bind_ok first]
        exact run

theorem items_ofList (f : α → StorageT) : (maxOccurs : Option Nat) →
    (list : AccessorList maxOccurs α) → items maxOccurs (ofList f maxOccurs list) = list.items.map f
  | some _, _ => rfl
  | none, _ => rfl

theorem copied_ofList {f : α → StorageT} {copy : StorageT → Except Exc StorageT} {made : α → α}
    (makes : ∀ v, copy (f v) = .ok (f (made v))) (maxOccurs : Option Nat)
    (dst src : AccessorList maxOccurs α) :
    copied copy maxOccurs (ofList f maxOccurs dst) (ofList f maxOccurs src) =
      .ok (ofList f maxOccurs (src.map made)) := by
  have cleared := clear_seen f maxOccurs dst
  simp only [Focus.set_run, image, id_eq] at cleared
  have room : ∀ limit ∈ maxOccurs,
      (AccessorList.clear : AccessorList maxOccurs α).items.length + src.items.length ≤ limit := by
    intro limit bound
    simpa [AccessorList.clear] using src.bounded limit bound
  rcases each_pushBack makes src.items _ room with ⟨whole, shown, run⟩
  have same : whole = src.map made := AccessorList.ext shown
  rw [copied, copyItems, bind_ok cleared, items_ofList, run, same]

end ListStorage

mutual
@[reducible] def Elem.Stored : Elem → Type
  | .prim t => t.Value
  | .enum _ _ => UInt32
  | .cls _ body => body.Stored

@[reducible] def Members.Stored : Members → Type
  | .nil => Unit
  | .base _ body rest => body.Stored × rest.Stored
  | .choice variants rest => ChoiceSlot variants.Stored × rest.Stored
  | .required _ elem rest => elem.Stored × rest.Stored
  | .optional _ elem rest => OptSlot elem.Stored × rest.Stored
  | .list _ maxOccurs elem rest => ListStorage maxOccurs elem.Stored × rest.Stored

@[reducible] def Variants.Stored : Variants → Type
  | .nil => Unit
  | .cons _ elem rest => elem.Stored × rest.Stored
end

mutual
def Elem.freshStored : (e : Elem) → e.Stored
  | .prim t => t.zero
  | .enum _ _ => (0 : UInt32)
  | .cls _ body => body.freshStored

def Members.freshStored : (ms : Members) → ms.Stored
  | .nil => ()
  | .base _ body rest => (body.freshStored, rest.freshStored)
  | .choice variants rest => (⟨0, variants.freshStored⟩, rest.freshStored)
  | .required _ elem rest => (elem.freshStored, rest.freshStored)
  | .optional _ elem rest => (⟨false, elem.freshStored⟩, rest.freshStored)
  | .list _ maxOccurs _ rest => (ListStorage.init maxOccurs, rest.freshStored)

def Variants.freshStored : (vs : Variants) → vs.Stored
  | .nil => ()
  | .cons _ elem rest => (elem.freshStored, rest.freshStored)
end

def OptSlot.copied {α : Type} (copy : (dst src : α) → Except Exc α) (dst src : OptSlot α) :
    Except Exc (OptSlot α) :=
  if src.has then (copy dst.value src.value).map fun value => ⟨src.has, value⟩
  else .ok ⟨src.has, dst.value⟩

mutual
/-- What `dst.copy(src)` leaves in `dst`, if it returns. -/
def Elem.copyStored : (e : Elem) → (dst src : e.Stored) → Except Exc e.Stored
  | .prim _, _, src => .ok src
  | .enum _ _, _, src => .ok src
  | .cls _ body, dst, src => body.copyStored dst src

def Members.copyStored : (ms : Members) → (dst src : ms.Stored) → Except Exc ms.Stored
  | .nil, _, _ => .ok ()
  | .base _ body rest, dst, src => do
      let front ← body.copyStored dst.1 src.1
      let others ← rest.copyStored dst.2 src.2
      return (front, others)
  | .choice variants rest, dst, src => do
      let others ← rest.copyStored dst.2 src.2
      let store ← variants.copyStored src.1.ordinal.toNat 1 dst.1.store src.1.store
      return (⟨src.1.ordinal, store⟩, others)
  | .required _ elem rest, dst, src => do
      let field ← elem.copyStored dst.1 src.1
      let others ← rest.copyStored dst.2 src.2
      return (field, others)
  | .optional _ elem rest, dst, src => do
      let slot ← OptSlot.copied elem.copyStored dst.1 src.1
      let others ← rest.copyStored dst.2 src.2
      return (slot, others)
  | .list _ maxOccurs elem rest, dst, src => do
      let list ← ListStorage.copied (elem.copyStored elem.freshStored) maxOccurs dst.1 src.1
      let others ← rest.copyStored dst.2 src.2
      return (list, others)

def Variants.copyStored : (vs : Variants) → (ordinal index : Nat) → (dst src : vs.Stored) →
    Except Exc vs.Stored
  | .nil, _, _, _, _ => .ok ()
  | .cons _ elem rest, ordinal, index, dst, src => do
      let variant ← if ordinal = index then elem.copyStored dst.1 src.1 else .ok dst.1
      let others ← rest.copyStored ordinal (index + 1) dst.2 src.2
      return (variant, others)
end

mutual
/-- No list at any depth has more elements than its class allows. -/
def Elem.Within : (e : Elem) → e.Stored → Prop
  | .prim _, _ => True
  | .enum _ _, _ => True
  | .cls _ body, d => body.Within d

def Members.Within : (ms : Members) → ms.Stored → Prop
  | .nil, _ => True
  | .base _ body rest, d => body.Within d.1 ∧ rest.Within d.2
  | .choice variants rest, d => variants.Within d.1.store ∧ rest.Within d.2
  | .required _ elem rest, d => elem.Within d.1 ∧ rest.Within d.2
  | .optional _ elem rest, d => elem.Within d.1.value ∧ rest.Within d.2
  | .list _ maxOccurs elem rest, d => ListStorage.Within elem.Within maxOccurs d.1 ∧ rest.Within d.2

def Variants.Within : (vs : Variants) → vs.Stored → Prop
  | .nil, _ => True
  | .cons _ elem rest, d => elem.Within d.1 ∧ rest.Within d.2
end

def OptSlot.map {α β : Type} (f : α → β) (slot : OptSlot α) : OptSlot β := ⟨slot.has, f slot.value⟩

def ChoiceSlot.map {α β : Type} (f : α → β) (slot : ChoiceSlot α) : ChoiceSlot β :=
  ⟨slot.ordinal, f slot.store⟩

theorem OptSlot.copied_map {α β : Type} {f : α → β} {copy : (dst src : β) → Except Exc β}
    {made : (dst src : α) → α} (makes : ∀ dst src, copy (f dst) (f src) = .ok (f (made dst src)))
    (dst src : OptSlot α) :
    OptSlot.copied copy (dst.map f) (src.map f) =
      .ok (OptSlot.map f ⟨src.has, if src.has then made dst.value src.value else dst.value⟩) := by
  rcases src with ⟨has, value⟩
  simp only [OptSlot.copied, OptSlot.map, makes]
  cases has with
  | true => rfl
  | false => rfl

mutual
def Elem.stored : (e : Elem) → e.Impl → e.Stored
  | .prim _ => id
  | .enum _ _ => id
  | .cls _ body => body.stored

def Members.stored : (ms : Members) → ms.Impl → ms.Stored
  | .nil => id
  | .base _ body rest => Prod.map body.stored rest.stored
  | .choice variants rest => Prod.map (ChoiceSlot.map variants.stored) rest.stored
  | .required _ elem rest => Prod.map elem.stored rest.stored
  | .optional _ elem rest => Prod.map (OptSlot.map elem.stored) rest.stored
  | .list _ maxOccurs elem rest =>
      Prod.map (ListStorage.ofList elem.stored maxOccurs) rest.stored

def Variants.stored : (vs : Variants) → vs.Impl → vs.Stored
  | .nil => id
  | .cons _ elem rest => Prod.map elem.stored rest.stored
end

mutual
theorem Elem.stored_within : (e : Elem) → (v : e.Impl) → e.Within (e.stored v)
  | .prim _, _ => by simp only [Elem.Within]
  | .enum _ _, _ => by simp only [Elem.Within]
  | .cls _ body, v => by
      simp only [Elem.Within, Elem.stored]
      exact body.stored_within v

theorem Members.stored_within : (ms : Members) → (v : ms.Impl) → ms.Within (ms.stored v)
  | .nil, _ => by simp only [Members.Within]
  | .base _ body rest, v => by
      simp only [Members.Within, Members.stored]
      exact ⟨body.stored_within v.1, rest.stored_within v.2⟩
  | .choice variants rest, v => by
      simp only [Members.Within, Members.stored]
      exact ⟨variants.stored_within v.1.store, rest.stored_within v.2⟩
  | .required _ elem rest, v => by
      simp only [Members.Within, Members.stored]
      exact ⟨elem.stored_within v.1, rest.stored_within v.2⟩
  | .optional _ elem rest, v => by
      simp only [Members.Within, Members.stored]
      exact ⟨elem.stored_within v.1.value, rest.stored_within v.2⟩
  | .list _ maxOccurs elem rest, v => by
      simp only [Members.Within, Members.stored]
      exact ⟨ListStorage.ofList_within elem.stored_within maxOccurs v.1, rest.stored_within v.2⟩

theorem Variants.stored_within : (vs : Variants) → (v : vs.Impl) → vs.Within (vs.stored v)
  | .nil, _ => by simp only [Variants.Within]
  | .cons _ elem rest, v => by
      simp only [Variants.Within, Variants.stored]
      exact ⟨elem.stored_within v.1, rest.stored_within v.2⟩
end

mutual
theorem Elem.exists_stored : (e : Elem) → (d : e.Stored) → e.Within d → ∃ v, e.stored v = d
  | .prim _, d, _ => ⟨d, by simp only [Elem.stored, id_eq]⟩
  | .enum _ _, d, _ => ⟨d, by simp only [Elem.stored, id_eq]⟩
  | .cls _ body, d, within => by
      simp only [Elem.Within, Elem.stored] at within ⊢
      exact body.exists_stored d within

theorem Members.exists_stored : (ms : Members) → (d : ms.Stored) → ms.Within d →
    ∃ v, ms.stored v = d
  | .nil, _, _ => ⟨(), rfl⟩
  | .base _ body rest, d, within => by
      simp only [Members.Within, Members.stored] at within ⊢
      rcases body.exists_stored d.1 within.1 with ⟨v, same⟩
      rcases rest.exists_stored d.2 within.2 with ⟨w, others⟩
      exact ⟨(v, w), Prod.ext same others⟩
  | .choice variants rest, d, within => by
      simp only [Members.Within, Members.stored] at within ⊢
      rcases variants.exists_stored d.1.store within.1 with ⟨v, same⟩
      rcases rest.exists_stored d.2 within.2 with ⟨w, others⟩
      refine ⟨(⟨d.1.ordinal, v⟩, w), Prod.ext ?_ others⟩
      simp only [Prod.map, ChoiceSlot.map, same]
  | .required _ elem rest, d, within => by
      simp only [Members.Within, Members.stored] at within ⊢
      rcases elem.exists_stored d.1 within.1 with ⟨v, same⟩
      rcases rest.exists_stored d.2 within.2 with ⟨w, others⟩
      exact ⟨(v, w), Prod.ext same others⟩
  | .optional _ elem rest, d, within => by
      simp only [Members.Within, Members.stored] at within ⊢
      rcases elem.exists_stored d.1.value within.1 with ⟨v, same⟩
      rcases rest.exists_stored d.2 within.2 with ⟨w, others⟩
      refine ⟨(⟨d.1.has, v⟩, w), Prod.ext ?_ others⟩
      simp only [Prod.map, OptSlot.map, same]
  | .list _ maxOccurs elem rest, d, within => by
      simp only [Members.Within, Members.stored] at within ⊢
      rcases ListStorage.exists_ofList elem.exists_stored maxOccurs d.1 within.1 with ⟨v, same⟩
      rcases rest.exists_stored d.2 within.2 with ⟨w, others⟩
      exact ⟨(v, w), Prod.ext same others⟩

theorem Variants.exists_stored : (vs : Variants) → (d : vs.Stored) → vs.Within d →
    ∃ v, vs.stored v = d
  | .nil, _, _ => ⟨(), rfl⟩
  | .cons _ elem rest, d, within => by
      simp only [Variants.Within, Variants.stored] at within ⊢
      rcases elem.exists_stored d.1 within.1 with ⟨v, same⟩
      rcases rest.exists_stored d.2 within.2 with ⟨w, others⟩
      exact ⟨(v, w), Prod.ext same others⟩
end

mutual
theorem Elem.stored_fresh : (e : Elem) → e.stored e.fresh = e.freshStored
  | .prim _ => by simp only [Elem.stored, Elem.fresh, Elem.freshStored, id_eq]
  | .enum _ _ => by simp only [Elem.stored, Elem.fresh, Elem.freshStored, id_eq]
  | .cls _ body => by
      simp only [Elem.stored, Elem.fresh, Elem.freshStored]
      exact body.stored_fresh

theorem Members.stored_fresh : (ms : Members) → ms.stored ms.fresh = ms.freshStored
  | .nil => rfl
  | .base _ body rest => by
      simp only [Members.stored, Members.fresh, Members.freshStored, Prod.map]
      rw [body.stored_fresh, rest.stored_fresh]
  | .choice variants rest => by
      simp only [Members.stored, Members.fresh, Members.freshStored, Prod.map, ChoiceSlot.map]
      rw [variants.stored_fresh, rest.stored_fresh]
  | .required _ elem rest => by
      simp only [Members.stored, Members.fresh, Members.freshStored, Prod.map]
      rw [elem.stored_fresh, rest.stored_fresh]
  | .optional _ elem rest => by
      simp only [Members.stored, Members.fresh, Members.freshStored, Prod.map, OptSlot.map]
      rw [elem.stored_fresh, rest.stored_fresh]
  | .list _ maxOccurs elem rest => by
      have empty : ListStorage.ofList elem.stored maxOccurs .clear =
          ListStorage.init maxOccurs := by
        cases maxOccurs with
        | some limit => rfl
        | none => rfl
      simp only [Members.stored, Members.fresh, Members.freshStored, Prod.map]
      rw [empty, rest.stored_fresh]

theorem Variants.stored_fresh : (vs : Variants) → vs.stored vs.fresh = vs.freshStored
  | .nil => rfl
  | .cons _ elem rest => by
      simp only [Variants.stored, Variants.fresh, Variants.freshStored, Prod.map]
      rw [elem.stored_fresh, rest.stored_fresh]
end

mutual
/-- Between objects that keep their bounds `copy` never finds a list full. -/
theorem Elem.copyStored_stored : (e : Elem) → (dst src : e.Impl) →
    e.copyStored (e.stored dst) (e.stored src) = .ok (e.stored (e.copy dst src))
  | .prim _, _, _ => by simp only [Elem.copyStored, Elem.stored, Elem.copy]
  | .enum _ _, _, _ => by simp only [Elem.copyStored, Elem.stored, Elem.copy]
  | .cls _ body, dst, src => by
      simp only [Elem.copyStored, Elem.stored, Elem.copy]
      exact body.copyStored_stored dst src

theorem Members.copyStored_stored : (ms : Members) → (dst src : ms.Impl) →
    ms.copyStored (ms.stored dst) (ms.stored src) = .ok (ms.stored (ms.copy dst src))
  | .nil, _, _ => rfl
  | .base _ body rest, dst, src => by
      simp only [Members.copyStored, Members.stored, Members.copy, Prod.map]
      rw [body.copyStored_stored, rest.copyStored_stored]
      rfl
  | .choice variants rest, dst, src => by
      simp only [Members.copyStored, Members.stored, Members.copy, Prod.map, ChoiceSlot.map]
      rw [rest.copyStored_stored]
      simp only [bind, Except.bind]
      rw [variants.copyStored_stored]
      rfl
  | .required _ elem rest, dst, src => by
      simp only [Members.copyStored, Members.stored, Members.copy, Prod.map]
      rw [elem.copyStored_stored, rest.copyStored_stored]
      rfl
  | .optional _ elem rest, dst, src => by
      simp only [Members.copyStored, Members.stored, Members.copy, Prod.map]
      rw [OptSlot.copied_map elem.copyStored_stored, rest.copyStored_stored]
      rfl
  | .list _ maxOccurs elem rest, dst, src => by
      have each : ∀ item, elem.copyStored elem.freshStored (elem.stored item) =
          .ok (elem.stored (elem.copy elem.fresh item)) := by
        intro item
        rw [← elem.stored_fresh]
        exact elem.copyStored_stored elem.fresh item
      simp only [Members.copyStored, Members.stored, Members.copy, Prod.map]
      rw [ListStorage.copied_ofList each, rest.copyStored_stored]
      rfl

theorem Variants.copyStored_stored : (vs : Variants) → (ordinal index : Nat) →
    (dst src : vs.Impl) →
    vs.copyStored ordinal index (vs.stored dst) (vs.stored src) =
      .ok (vs.stored (vs.copy ordinal index dst src))
  | .nil, _, _, _, _ => rfl
  | .cons _ elem rest, ordinal, index, dst, src => by
      simp only [Variants.copyStored, Variants.stored, Variants.copy, Prod.map]
      rw [elem.copyStored_stored, rest.copyStored_stored]
      by_cases here : ordinal = index
      · simp only [if_pos here]
        rfl
      · simp only [if_neg here]
        rfl
end

end Arcal.Schema
