import Arcal.Accessor.Impl
import Arcal.Lib.Store

/-! `copy` of the generated classes as it runs: statement by statement, into one object of a
store while another is read. -/

namespace Arcal.Schema

open InPlace (bind_ok)
open Store

namespace AccessorList

variable {maxOccurs : Option Nat} {σ α : Type}

/-- `push_back(item)`: room is checked, a new object takes the copy and is moved to the end. -/
def pushCopy (list : Ref σ (AccessorList maxOccurs α)) (copied : Except Exc α) :
    EStateM Exc σ Unit := fun s =>
  if ∀ limit ∈ maxOccurs, (list.get s).items.length < limit then
    match copied.bind (list.get s).pushBack with
    | .ok longer => .ok () (list.put s longer)
    | .error e => .error e s
  else .error (.uciException
    (utf8 "BoundedList::push_back exceeds maxOccurs=" ++ decimal (maxOccurs.getD 0))) s

end AccessorList

def OptSlot.hasRef {α : Type} : Ref (OptSlot α) Bool where
  get := OptSlot.has
  put := fun slot has => { slot with has }
  get_put := fun _ _ => rfl
  put_get := fun _ => rfl
  put_put := fun _ _ _ => rfl

def OptSlot.valueRef {α : Type} : Ref (OptSlot α) α where
  get := OptSlot.value
  put := fun slot value => { slot with value }
  get_put := fun _ _ => rfl
  put_get := fun _ => rfl
  put_put := fun _ _ _ => rfl

def ChoiceSlot.ordinalRef {τ : Type} : Ref (ChoiceSlot τ) UInt32 where
  get := ChoiceSlot.ordinal
  put := fun slot ordinal => { slot with ordinal }
  get_put := fun _ _ => rfl
  put_get := fun _ => rfl
  put_put := fun _ _ _ => rfl

def ChoiceSlot.storeRef {τ : Type} : Ref (ChoiceSlot τ) τ where
  get := ChoiceSlot.store
  put := fun slot store => { slot with store }
  get_put := fun _ _ => rfl
  put_get := fun _ => rfl
  put_put := fun _ _ _ => rfl

def madeFrom {α : Type} (fill : EStateM Exc (α × α) Unit) (init item : α) : Except Exc α :=
  match fill (init, item) with
  | .ok _ made => .ok made.1
  | .error e _ => .error e

section Statements

variable {σ τ α : Type} {maxOccurs : Option Nat}

/-- The flag first; the value only if the flag is now set. -/
def copyOptional (dst : Ref σ (OptSlot α)) (src : σ → OptSlot α) (inner : EStateM Exc σ Unit) :
    EStateM Exc σ Unit := do
  assign (dst.part OptSlot.hasRef) fun s => (src s).has
  whenever (dst.part OptSlot.hasRef).get inner

def copyChoice (dst : Ref σ (ChoiceSlot τ)) (src : σ → ChoiceSlot τ) (inner : EStateM Exc σ Unit) :
    EStateM Exc σ Unit := do
  assign (dst.part ChoiceSlot.ordinalRef) fun s => (src s).ordinal
  inner

/-- The source is read after the destination was cleared. -/
def copyList (dst : Ref σ (AccessorList maxOccurs α)) (src : σ → AccessorList maxOccurs α)
    (copied : α → Except Exc α) : EStateM Exc σ Unit := do
  assign dst fun _ => .clear
  forEach (fun s => (src s).items) fun item => AccessorList.pushCopy dst (copied item)

end Statements

mutual
/-- `dst.copy(src)`; `init` is what a new object of a list holds. -/
def Elem.copyInto (init : (e : Elem) → e.Impl) : (e : Elem) → {σ : Type} → Ref σ e.Impl →
    (σ → e.Impl) → EStateM Exc σ Unit
  | .prim _, _, dst, src => assign dst src
  | .enum _ _, _, dst, src => assign dst src
  | .cls _ body, _, dst, src => Members.copyInto init body dst src

def Members.copyInto (init : (e : Elem) → e.Impl) : (ms : Members) → {σ : Type} →
    Ref σ ms.Impl → (σ → ms.Impl) → EStateM Exc σ Unit
  | .nil, _, _, _ => pure ()
  | .base _ body rest, _, dst, src => do
      Members.copyInto init body (dst.part .fst) fun s => (src s).1
      Members.copyInto init rest (dst.part .snd) fun s => (src s).2
  | .choice variants rest, _, dst, src => do
      Members.copyInto init rest (dst.part .snd) fun s => (src s).2
      copyChoice (dst.part .fst) (fun s => (src s).1)
        (Variants.copyInto init variants (fun s => (src s).1.ordinal.toNat) 1
          ((dst.part .fst).part ChoiceSlot.storeRef) fun s => (src s).1.store)
  | .required _ elem rest, _, dst, src => do
      Elem.copyInto init elem (dst.part .fst) fun s => (src s).1
      Members.copyInto init rest (dst.part .snd) fun s => (src s).2
  | .optional _ elem rest, _, dst, src => do
      copyOptional (dst.part .fst) (fun s => (src s).1)
        (Elem.copyInto init elem ((dst.part .fst).part OptSlot.valueRef) fun s => (src s).1.value)
      Members.copyInto init rest (dst.part .snd) fun s => (src s).2
  | .list _ _ elem rest, _, dst, src => do
      copyList (dst.part .fst) (fun s => (src s).1)
        (madeFrom (Elem.copyInto init elem .fst Prod.snd) (init elem))
      Members.copyInto init rest (dst.part .snd) fun s => (src s).2

/-- One `if (rhs.isX())` per variant. -/
def Variants.copyInto (init : (e : Elem) → e.Impl) : (vs : Variants) → {σ : Type} →
    (ordinal : σ → Nat) → (index : Nat) → Ref σ vs.Impl → (σ → vs.Impl) → EStateM Exc σ Unit
  | .nil, _, _, _, _, _ => pure ()
  | .cons _ elem rest, _, ordinal, index, dst, src => do
      whenever (fun s => ordinal s == index)
        (Elem.copyInto init elem (dst.part .fst) fun s => (src s).1)
      Variants.copyInto init rest ordinal (index + 1) (dst.part .snd) fun s => (src s).2
end

section Statements

variable {σ τ α : Type} {maxOccurs : Option Nat}

theorem madeFrom_of_writes {related : α → α → Prop} {fill : EStateM Exc (α × α) Unit}
    (writes : Writes .fst (fun pair v => related v pair.2) fill) (init item : α) :
    ∃ made, madeFrom fill init item = .ok made ∧ related made item := by
  obtain ⟨v, run, shown⟩ := writes (init, item)
  exact ⟨v, by rw [madeFrom, run]; rfl, shown⟩

theorem each_pushCopy {dst : Ref σ (AccessorList maxOccurs α)} {related : α → α → Prop}
    {copied : α → Except Exc α}
    (copies : ∀ item, ∃ made, copied item = .ok made ∧ related made item)
    (items : List α) (s : σ)
    (room : ∀ limit ∈ maxOccurs, (dst.get s).items.length + items.length ≤ limit) :
    ∃ list, Focus.each (fun item => AccessorList.pushCopy dst (copied item)) items s =
        .ok () (dst.put s list) ∧
      ∃ added, list.items = (dst.get s).items ++ added ∧ List.Forall₂ related added items := by
  induction items generalizing s with
  | nil =>
      refine ⟨dst.get s, ?_, [], (List.append_nil _).symm, .nil⟩
      rw [dst.put_get]
      rfl
  | cons item rest ih =>
      obtain ⟨made, copy, shown⟩ := copies item
      have here : ∀ limit ∈ maxOccurs, (dst.get s).items.length < limit := by
        intro limit bound
        have whole := room limit bound
        rw [List.length_cons] at whole
        omega
      obtain ⟨longer, push, grown⟩ := AccessorList.pushBack_room (dst.get s) made here
      have first : AccessorList.pushCopy dst (copied item) s = .ok () (dst.put s longer) := by
        rw [AccessorList.pushCopy, if_pos here, copy, Except.bind, push]
      have left : ∀ limit ∈ maxOccurs,
          (dst.get (dst.put s longer)).items.length + rest.length ≤ limit := by
        intro limit bound
        have whole := room limit bound
        rw [dst.get_put, grown, List.length_append, List.length_singleton]
        rw [List.length_cons] at whole
        omega
      obtain ⟨list, run, added, items, related⟩ := ih (dst.put s longer) left
      rw [dst.get_put, grown, List.append_assoc, List.singleton_append] at items
      refine ⟨list, ?_, made :: added, items, .cons shown related⟩
      rw [Focus.each, bind_ok first, run, dst.put_put]

theorem copyList_writes {dst : Ref σ (AccessorList maxOccurs α)}
    {src : σ → AccessorList maxOccurs α} {related : α → α → Prop} {copied : α → Except Exc α}
    (apart : Apart dst src)
    (copies : ∀ item, ∃ made, copied item = .ok made ∧ related made item) :
    Writes dst (fun s list => List.Forall₂ related list.items (src s).items)
      (copyList dst src copied) := by
  intro s
  have room : ∀ limit ∈ maxOccurs,
      (dst.get (dst.put s .clear)).items.length + (src s).items.length ≤ limit := by
    intro limit bound
    rw [dst.get_put]
    exact (Nat.zero_add _).symm ▸ (src s).bounded limit bound
  obtain ⟨list, run, added, items, shown⟩ := each_pushCopy copies (src s).items _ room
  rw [dst.get_put] at items
  have same : added = list.items := items.symm
  subst same
  refine ⟨list, ?_, shown⟩
  have cleared : (assign dst (fun _ => .clear) : EStateM Exc σ Unit) s =
      .ok () (dst.put s .clear) := rfl
  rw [copyList, bind_ok cleared, forEach, apart, run, dst.put_put]

theorem copyOptional_writes {dst : Ref σ (OptSlot α)} {src : σ → OptSlot α}
    {related : α → α → Prop} {inner : EStateM Exc σ Unit} (apart : Apart dst src)
    (writes : Writes (dst.part OptSlot.valueRef) (fun s v => related v (src s).value) inner) :
    Writes dst (fun s slot => slot.has = (src s).has ∧
        ((src s).has = true → related slot.value (src s).value))
      (copyOptional dst src inner) := by
  intro s
  have flagged : (assign (dst.part OptSlot.hasRef) (fun s => (src s).has) : EStateM Exc σ Unit) s =
      .ok () ((dst.part OptSlot.hasRef).put s (src s).has) := rfl
  obtain ⟨v, run, shown⟩ := writes.whenever (dst.part OptSlot.hasRef).get
    ((dst.part OptSlot.hasRef).put s (src s).has)
  refine ⟨⟨(src s).has, v⟩, ?_, rfl, ?_⟩
  · rw [copyOptional, bind_ok flagged, run]
    simp only [Ref.part, Ref.get_put, Ref.put_put]
    rfl
  · intro present
    have held := shown (by rw [Ref.get_put]; exact present)
    have read : src ((dst.part OptSlot.hasRef).put s (src s).has) = src s := apart s _
    rw [read] at held
    exact held

theorem copyChoice_writes {dst : Ref σ (ChoiceSlot τ)} (src : σ → ChoiceSlot τ)
    {related : σ → τ → Prop} {inner : EStateM Exc σ Unit}
    (stable : ∀ s v w, related (dst.put s v) w → related s w)
    (writes : Writes (dst.part ChoiceSlot.storeRef) related inner) :
    Writes dst (fun s slot => slot.ordinal = (src s).ordinal ∧ related s slot.store)
      (copyChoice dst src inner) :=
  Writes.both ChoiceSlot.ordinalRef ChoiceSlot.storeRef (fun _ _ => rfl) (Writes.assign _ _)
    writes stable

end Statements

mutual
/-- `copy` returns, writes to its destination only and leaves there what the source shows,
whatever the destination and the new objects of the lists held. -/
theorem Elem.copyInto_writes (init : (e : Elem) → e.Impl) : (e : Elem) → {σ : Type} →
    {dst : Ref σ e.Impl} → {src : σ → e.Impl} → Apart dst src →
    Writes dst (fun s v => e.Agrees v (src s)) (e.copyInto init dst src)
  | .prim _, _, dst, src, _ => by
      simp only [Elem.copyInto, Elem.Agrees]
      exact Writes.assign dst src
  | .enum _ _, _, dst, src, _ => by
      simp only [Elem.copyInto, Elem.Agrees]
      exact Writes.assign dst src
  | .cls _ body, _, dst, src, apart => by
      simp only [Elem.copyInto, Elem.Agrees]
      exact Members.copyInto_writes init body apart

theorem Members.copyInto_writes (init : (e : Elem) → e.Impl) : (ms : Members) → {σ : Type} →
    {dst : Ref σ ms.Impl} → {src : σ → ms.Impl} → Apart dst src →
    Writes dst (fun s v => ms.Agrees v (src s)) (ms.copyInto init dst src)
  | .nil, _, dst, src, _ => by
      simp only [Members.copyInto, Members.Agrees]
      exact fun s => ⟨dst.get s, by rw [dst.put_get]; rfl, trivial⟩
  | .base _ body rest, _, dst, src, apart => by
      simp only [Members.copyInto, Members.Agrees]
      exact Writes.both .fst .snd (fun _ _ => rfl)
        (Members.copyInto_writes init body ((apart.part _).then Prod.fst))
        (Members.copyInto_writes init rest ((apart.part _).then Prod.snd))
        fun s v w shown => by rwa [apart] at shown
  | .choice variants rest, _, dst, src, apart => by
      simp only [Members.copyInto, Members.Agrees]
      have store := Variants.copyInto_writes init variants 1
        (((apart.part .fst).part ChoiceSlot.storeRef).then fun v => v.1.ordinal.toNat)
        (((apart.part .fst).part ChoiceSlot.storeRef).then fun v => v.1.store)
      have chosen := copyChoice_writes (fun s => (src s).1)
        (fun s v w shown => by rwa [apart.part .fst] at shown) store
      have whole := Writes.both .snd .fst (fun _ _ => rfl)
        (Members.copyInto_writes init rest ((apart.part _).then Prod.snd)) chosen
        fun s v w shown => by rwa [apart] at shown
      exact whole.imp fun s v shown => ⟨shown.2.1, shown.2.2, shown.1⟩
  | .required _ elem rest, _, dst, src, apart => by
      simp only [Members.copyInto, Members.Agrees]
      exact Writes.both .fst .snd (fun _ _ => rfl)
        (Elem.copyInto_writes init elem ((apart.part _).then Prod.fst))
        (Members.copyInto_writes init rest ((apart.part _).then Prod.snd))
        fun s v w shown => by rwa [apart] at shown
  | .optional _ elem rest, _, dst, src, apart => by
      simp only [Members.copyInto, Members.Agrees]
      have slot := copyOptional_writes ((apart.part .fst).then Prod.fst)
        (Elem.copyInto_writes init elem
          (((apart.part .fst).part OptSlot.valueRef).then fun v => v.1.value))
      have whole := Writes.both .fst .snd (fun _ _ => rfl) slot
        (Members.copyInto_writes init rest ((apart.part _).then Prod.snd))
        fun s v w shown => by rwa [apart] at shown
      exact whole.imp fun s v shown => ⟨shown.1.1, shown.1.2, shown.2⟩
  | .list _ _ elem rest, _, dst, src, apart => by
      simp only [Members.copyInto, Members.Agrees]
      have item : Writes .fst (fun pair v => elem.Agrees v pair.2)
          (elem.copyInto init .fst Prod.snd) := Elem.copyInto_writes init elem fun _ _ => rfl
      have list := copyList_writes ((apart.part .fst).then Prod.fst)
        (madeFrom_of_writes item (init elem))
      exact Writes.both .fst .snd (fun _ _ => rfl) list
        (Members.copyInto_writes init rest ((apart.part _).then Prod.snd))
        fun s v w shown => by rwa [apart] at shown

theorem Variants.copyInto_writes (init : (e : Elem) → e.Impl) : (vs : Variants) → {σ : Type} →
    {ordinal : σ → Nat} → (index : Nat) → {dst : Ref σ vs.Impl} → {src : σ → vs.Impl} →
    Apart dst ordinal → Apart dst src →
    Writes dst (fun s v => vs.Agrees (ordinal s) index v (src s))
      (vs.copyInto init ordinal index dst src)
  | .nil, _, _, _, dst, src, _, _ => by
      simp only [Variants.copyInto, Variants.Agrees]
      exact fun s => ⟨dst.get s, by rw [dst.put_get]; rfl, trivial⟩
  | .cons _ elem rest, _, ordinal, index, dst, src, steady, apart => by
      simp only [Variants.copyInto, Variants.Agrees]
      have chosen := (Elem.copyInto_writes init elem ((apart.part .fst).then Prod.fst)).whenever
        fun s => ordinal s == index
      have whole := Writes.both .fst .snd (fun _ _ => rfl) chosen
        (Variants.copyInto_writes init rest (index + 1) (steady.part _)
          ((apart.part _).then Prod.snd))
        fun s v w shown => by rwa [steady, apart] at shown
      exact whole.imp fun s v shown =>
        ⟨fun same => shown.1 (beq_iff_eq.mpr same), shown.2⟩
end

theorem Elem.copyInto_copy (init : (e : Elem) → e.Impl) (e : Elem) {σ : Type} {dst : Ref σ e.Impl}
    {src : σ → e.Impl} (apart : Apart dst src) :
    Writes dst (fun s v => e.Agrees v (e.copy (dst.get s) (src s))) (e.copyInto init dst src) :=
  (e.copyInto_writes init apart).imp fun s v shown =>
    e.agrees_symm _ _ ((e.copy_agrees_iff (dst.get s) (src s) v).mpr (e.agrees_symm _ _ shown))

end Arcal.Schema
