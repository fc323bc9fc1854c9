import Arcal.Accessor.Copy

/-! `x.copy(x)`. `copy` clears a list before it reads the other object's, and nothing in it
asks whether the two are one. -/

namespace Arcal.Schema

open Store

mutual
/-- The object with its lists emptied; absent optionals and variants that are not chosen are
not looked at. -/
def Elem.emptied : (e : Elem) → e.Impl → e.Impl
  | .prim _, v => v
  | .enum _ _, v => v
  | .cls _ body, v => body.emptied v

def Members.emptied : (ms : Members) → ms.Impl → ms.Impl
  | .nil, _ => ()
  | .base _ body rest, v => (body.emptied v.1, rest.emptied v.2)
  | .choice variants rest, v =>
      (⟨v.1.ordinal, variants.emptied v.1.ordinal.toNat 1 v.1.store⟩, rest.emptied v.2)
  | .required _ elem rest, v => (elem.emptied v.1, rest.emptied v.2)
  | .optional _ elem rest, v =>
      (⟨v.1.has, if v.1.has then elem.emptied v.1.value else v.1.value⟩, rest.emptied v.2)
  | .list _ _ _ rest, v => (.clear, rest.emptied v.2)

def Variants.emptied : (vs : Variants) → (ordinal index : Nat) → vs.Impl → vs.Impl
  | .nil, _, _, _ => ()
  | .cons _ elem rest, ordinal, index, v =>
      (if ordinal = index then elem.emptied v.1 else v.1, rest.emptied ordinal (index + 1) v.2)
end

mutual
def Elem.NoItems : (e : Elem) → e.Impl → Prop
  | .prim _, _ => True
  | .enum _ _, _ => True
  | .cls _ body, v => body.NoItems v

def Members.NoItems : (ms : Members) → ms.Impl → Prop
  | .nil, _ => True
  | .base _ body rest, v => body.NoItems v.1 ∧ rest.NoItems v.2
  | .choice variants rest, v =>
      variants.NoItems v.1.ordinal.toNat 1 v.1.store ∧ rest.NoItems v.2
  | .required _ elem rest, v => elem.NoItems v.1 ∧ rest.NoItems v.2
  | .optional _ elem rest, v => (v.1.has = true → elem.NoItems v.1.value) ∧ rest.NoItems v.2
  | .list _ _ _ rest, v => v.1.items = [] ∧ rest.NoItems v.2

def Variants.NoItems : (vs : Variants) → (ordinal index : Nat) → vs.Impl → Prop
  | .nil, _, _, _ => True
  | .cons _ elem rest, ordinal, index, v =>
      (ordinal = index → elem.NoItems v.1) ∧ rest.NoItems ordinal (index + 1) v.2
end

mutual
theorem Elem.emptied_agrees_iff : (e : Elem) → (v : e.Impl) →
    (e.Agrees (e.emptied v) v ↔ e.NoItems v)
  | .prim _, _ => by simp only [Elem.Agrees, Elem.emptied, Elem.NoItems]
  | .enum _ _, _ => by simp only [Elem.Agrees, Elem.emptied, Elem.NoItems]
  | .cls _ body, v => by
      simp only [Elem.Agrees, Elem.emptied, Elem.NoItems]
      exact body.emptied_agrees_iff v

theorem Members.emptied_agrees_iff : (ms : Members) → (v : ms.Impl) →
    (ms.Agrees (ms.emptied v) v ↔ ms.NoItems v)
  | .nil, _ => by simp only [Members.Agrees, Members.NoItems]
  | .base _ body rest, v => by
      simp only [Members.Agrees, Members.emptied, Members.NoItems]
      exact and_congr (body.emptied_agrees_iff v.1) (rest.emptied_agrees_iff v.2)
  | .choice variants rest, v => by
      simp only [Members.Agrees, Members.emptied, Members.NoItems, true_and]
      exact and_congr (variants.emptied_agrees_iff _ 1 v.1.store) (rest.emptied_agrees_iff v.2)
  | .required _ elem rest, v => by
      simp only [Members.Agrees, Members.emptied, Members.NoItems]
      exact and_congr (elem.emptied_agrees_iff v.1) (rest.emptied_agrees_iff v.2)
  | .optional _ elem rest, v => by
      simp only [Members.Agrees, Members.emptied, Members.NoItems, true_and]
      refine and_congr (forall_congr' fun present => ?_) (rest.emptied_agrees_iff v.2)
      rw [if_pos present]
      exact elem.emptied_agrees_iff v.1.value
  | .list _ _ elem rest, v => by
      simp only [Members.Agrees, Members.emptied, Members.NoItems]
      refine and_congr ?_ (rest.emptied_agrees_iff v.2)
      exact List.forall₂_nil_left_iff

theorem Variants.emptied_agrees_iff : (vs : Variants) → (ordinal index : Nat) → (v : vs.Impl) →
    (vs.Agrees ordinal index (vs.emptied ordinal index v) v ↔ vs.NoItems ordinal index v)
  | .nil, _, _, _ => by simp only [Variants.Agrees, Variants.NoItems]
  | .cons _ elem rest, ordinal, index, v => by
      simp only [Variants.Agrees, Variants.emptied, Variants.NoItems]
      refine and_congr (forall_congr' fun chosen => ?_)
        (rest.emptied_agrees_iff ordinal (index + 1) v.2)
      rw [if_pos chosen]
      exact elem.emptied_agrees_iff v.1
end

mutual
theorem Elem.noItems_emptied : (e : Elem) → (v : e.Impl) → e.NoItems (e.emptied v)
  | .prim _, _ => by simp only [Elem.NoItems]
  | .enum _ _, _ => by simp only [Elem.NoItems]
  | .cls _ body, v => by
      simp only [Elem.NoItems, Elem.emptied]
      exact body.noItems_emptied v

theorem Members.noItems_emptied : (ms : Members) → (v : ms.Impl) → ms.NoItems (ms.emptied v)
  | .nil, _ => by simp only [Members.NoItems]
  | .base _ body rest, v => by
      simp only [Members.NoItems, Members.emptied]
      exact ⟨body.noItems_emptied v.1, rest.noItems_emptied v.2⟩
  | .choice variants rest, v => by
      simp only [Members.NoItems, Members.emptied]
      exact ⟨variants.noItems_emptied _ 1 v.1.store, rest.noItems_emptied v.2⟩
  | .required _ elem rest, v => by
      simp only [Members.NoItems, Members.emptied]
      exact ⟨elem.noItems_emptied v.1, rest.noItems_emptied v.2⟩
  | .optional _ elem rest, v => by
      simp only [Members.NoItems, Members.emptied]
      refine ⟨fun present => ?_, rest.noItems_emptied v.2⟩
      rw [if_pos present]
      exact elem.noItems_emptied v.1.value
  | .list _ _ _ rest, v => by
      simp only [Members.NoItems, Members.emptied]
      exact ⟨rfl, rest.noItems_emptied v.2⟩

theorem Variants.noItems_emptied : (vs : Variants) → (ordinal index : Nat) → (v : vs.Impl) →
    vs.NoItems ordinal index (vs.emptied ordinal index v)
  | .nil, _, _, _ => by simp only [Variants.NoItems]
  | .cons _ elem rest, ordinal, index, v => by
      simp only [Variants.NoItems, Variants.emptied]
      refine ⟨fun chosen => ?_, rest.noItems_emptied ordinal (index + 1) v.2⟩
      rw [if_pos chosen]
      exact elem.noItems_emptied v.1
end

section Statements

variable {σ τ α : Type} {maxOccurs : Option Nat}

theorem copyList_self (dst : Ref σ (AccessorList maxOccurs α)) (copied : α → Except Exc α) :
    Writes dst (fun _ list => list = .clear) (copyList dst dst.get copied) := by
  intro s
  refine ⟨.clear, ?_, rfl⟩
  have cleared : (assign dst (fun _ => .clear) : EStateM Exc σ Unit) s =
      .ok () (dst.put s .clear) := rfl
  rw [copyList, InPlace.bind_ok cleared, forEach, dst.get_put]
  rfl

theorem copyOptional_self {dst : Ref σ (OptSlot α)} {f : α → α} {inner : EStateM Exc σ Unit}
    (writes : Writes (dst.part OptSlot.valueRef)
      (fun s v => v = f ((dst.part OptSlot.valueRef).get s)) inner) :
    Writes dst (fun s slot => slot =
        ⟨(dst.get s).has, if (dst.get s).has then f (dst.get s).value else (dst.get s).value⟩)
      (copyOptional dst dst.get inner) := by
  intro s
  have flagged : (assign (dst.part OptSlot.hasRef) (fun s => (dst.get s).has) :
      EStateM Exc σ Unit) s = .ok () s := congrArg _ ((dst.part OptSlot.hasRef).put_get s)
  obtain ⟨v, run, same⟩ := writes.whenever_value (dst.part OptSlot.hasRef).get s
  refine ⟨⟨(dst.get s).has, v⟩, ?_, ?_⟩
  · rw [copyOptional, InPlace.bind_ok flagged, run]
    rfl
  · rw [same]
    rfl

theorem copyChoice_self {dst : Ref σ (ChoiceSlot τ)} {f : Nat → τ → τ}
    {inner : EStateM Exc σ Unit}
    (writes : Writes (dst.part ChoiceSlot.storeRef) (fun s v => v =
      f (dst.get s).ordinal.toNat ((dst.part ChoiceSlot.storeRef).get s)) inner) :
    Writes dst (fun s slot => slot =
        ⟨(dst.get s).ordinal, f (dst.get s).ordinal.toNat (dst.get s).store⟩)
      (copyChoice dst dst.get inner) := by
  intro s
  have kept : (assign (dst.part ChoiceSlot.ordinalRef) (fun s => (dst.get s).ordinal) :
      EStateM Exc σ Unit) s = .ok () s := congrArg _ ((dst.part ChoiceSlot.ordinalRef).put_get s)
  obtain ⟨v, run, same⟩ := writes s
  refine ⟨⟨(dst.get s).ordinal, v⟩, ?_, ?_⟩
  · rw [copyChoice, InPlace.bind_ok kept, run]
    rfl
  · rw [same]
    rfl

theorem pair_self {dst : Ref σ (α × τ)} {f : α → α} {g : τ → τ} {step step' : EStateM Exc σ Unit}
    (first : Writes (dst.part .fst) (fun s v => v = f ((dst.part .fst).get s)) step)
    (second : Writes (dst.part .snd) (fun s v => v = g ((dst.part .snd).get s)) step') :
    Writes dst (fun s v => v = (f (dst.get s).1, g (dst.get s).2)) (do step; step') := by
  have whole := first.inTurn .fst .snd (fun _ _ => rfl) second fun s v w same => by
    rwa [dst.get_snd_put_fst] at same
  exact whole.imp fun s v both => Prod.ext both.1 both.2

end Statements

mutual
theorem Elem.copyInto_self (init : (e : Elem) → e.Impl) : (e : Elem) → {σ : Type} →
    (dst : Ref σ e.Impl) →
    Writes dst (fun s v => v = e.emptied (dst.get s)) (e.copyInto init dst dst.get)
  | .prim _, _, dst => by
      simp only [Elem.copyInto, Elem.emptied]
      exact Writes.assign dst dst.get
  | .enum _ _, _, dst => by
      simp only [Elem.copyInto, Elem.emptied]
      exact Writes.assign dst dst.get
  | .cls _ body, _, dst => by
      simp only [Elem.copyInto, Elem.emptied]
      exact Members.copyInto_self init body dst

theorem Members.copyInto_self (init : (e : Elem) → e.Impl) : (ms : Members) → {σ : Type} →
    (dst : Ref σ ms.Impl) →
    Writes dst (fun s v => v = ms.emptied (dst.get s)) (ms.copyInto init dst dst.get)
  | .nil, _, dst => by
      simp only [Members.copyInto]
      exact fun s => ⟨dst.get s, by rw [dst.put_get]; rfl, trivial⟩
  | .base _ body rest, _, dst => by
      simp only [Members.copyInto, Members.emptied]
      exact pair_self (Members.copyInto_self init body (dst.part .fst))
        (Members.copyInto_self init rest (dst.part .snd))
  | .choice variants rest, _, dst => by
      simp only [Members.copyInto, Members.emptied]
      have steady : Apart ((dst.part .fst).part ChoiceSlot.storeRef)
          fun s => (dst.get s).1.ordinal.toNat := by
        intro s v
        simp only [Ref.part, Ref.get_put]
        rfl
      have store := Variants.copyInto_self init variants 1
        ((dst.part .fst).part ChoiceSlot.storeRef) steady
      have slot := copyChoice_self (f := fun ordinal => variants.emptied ordinal 1) store
      have others := Members.copyInto_self init rest (dst.part .snd)
      have whole := others.inTurn .snd .fst (fun _ _ => rfl) slot fun s v w same => by
        rwa [dst.get_fst_put_snd] at same
      exact whole.imp fun s v both => Prod.ext both.2 both.1
  | .required _ elem rest, _, dst => by
      simp only [Members.copyInto, Members.emptied]
      exact pair_self (Elem.copyInto_self init elem (dst.part .fst))
        (Members.copyInto_self init rest (dst.part .snd))
  | .optional _ elem rest, _, dst => by
      simp only [Members.copyInto, Members.emptied]
      have slot := copyOptional_self
        (Elem.copyInto_self init elem ((dst.part .fst).part OptSlot.valueRef))
      exact pair_self
        (f := fun slot => ⟨slot.has, if slot.has then elem.emptied slot.value else slot.value⟩)
        slot (Members.copyInto_self init rest (dst.part .snd))
  | .list _ _ elem rest, _, dst => by
      simp only [Members.copyInto, Members.emptied]
      exact pair_self (f := fun _ => .clear) (copyList_self (dst.part .fst) _)
        (Members.copyInto_self init rest (dst.part .snd))

theorem Variants.copyInto_self (init : (e : Elem) → e.Impl) : (vs : Variants) → {σ : Type} →
    {ordinal : σ → Nat} → (index : Nat) → (dst : Ref σ vs.Impl) → Apart dst ordinal →
    Writes dst (fun s v => v = vs.emptied (ordinal s) index (dst.get s))
      (vs.copyInto init ordinal index dst dst.get)
  | .nil, _, _, _, dst, _ => by
      simp only [Variants.copyInto]
      exact fun s => ⟨dst.get s, by rw [dst.put_get]; rfl, trivial⟩
  | .cons _ elem rest, _, ordinal, index, dst, steady => by
      simp only [Variants.copyInto, Variants.emptied]
      have chosen := (Elem.copyInto_self init elem (dst.part .fst)).whenever_value
        fun s => ordinal s == index
      have others := Variants.copyInto_self init rest (index + 1) (dst.part .snd)
        (steady.part .snd)
      have whole := chosen.inTurn .fst .snd (fun _ _ => rfl) others fun s v w same => by
        rwa [steady.part .fst, dst.get_snd_put_fst] at same
      refine whole.imp fun s v both => Prod.ext (both.1.trans ?_) both.2
      simp only [beq_iff_eq]
      rfl
end

/-- Copying an object onto itself returns, leaves no item in any list that shows and nothing
else changed, and so is harmless exactly when no list that shows had an item. -/
theorem copy_self (init : (e : Elem) → e.Impl) (e : Elem) {σ : Type} (dst : Ref σ e.Impl)
    (s : σ) :
    e.copyInto init dst dst.get s = .ok () (dst.put s (e.emptied (dst.get s))) ∧
      e.NoItems (e.emptied (dst.get s)) ∧
      (e.Agrees (e.emptied (dst.get s)) (dst.get s) ↔ e.NoItems (dst.get s)) := by
  obtain ⟨v, run, same⟩ := Elem.copyInto_self init e dst s
  refine ⟨?_, e.noItems_emptied _, e.emptied_agrees_iff _⟩
  rw [run, same]

example : ¬ trackLayout.NoItems sampleTrack := by
  simp [trackLayout, sampleTrack, Elem.NoItems, Members.NoItems]

end Arcal.Schema
