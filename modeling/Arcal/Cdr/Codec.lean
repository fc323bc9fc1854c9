import Arcal.Cdr.Primitives

/-! The generated CDR handlers: `T_serialize` and `T_deserialize_at` of every class,
unfolded over the class's storage. -/

namespace Arcal.Cdr

open Schema InPlace

mutual
def Elem.serialize : (e : Elem) → e.Impl → Bytes → Bytes
  | .prim t, v, buf => encode t buf v
  | .enum _ _, v, buf => encodeUint32 buf v
  | .cls _ body, v, buf => Members.serialize body v buf

def Members.serialize : (ms : Members) → ms.Impl → Bytes → Bytes
  | .nil, _, buf => buf
  | .base _ body rest, v, buf =>
      Members.serialize rest v.2 (Members.serialize body v.1 buf)
  | .choice variants rest, v, buf =>
      Members.serialize rest v.2
        (Variants.serialize variants v.1.ordinal.toNat 1 v.1.store (encodeUint32 buf v.1.ordinal))
  | .required _ elem rest, v, buf =>
      Members.serialize rest v.2 (Elem.serialize elem v.1 buf)
  | .optional _ elem rest, v, buf =>
      Members.serialize rest v.2
        (if v.1.has then Elem.serialize elem v.1.value (encodeOptionalFlag buf v.1.has)
          else encodeOptionalFlag buf v.1.has)
  | .list _ _ elem rest, v, buf =>
      Members.serialize rest v.2
        (v.1.items.foldl (fun buf item => Elem.serialize elem item buf)
          (encodeSequenceLength buf (UInt32.ofNat v.1.items.length)))

def Variants.serialize : (vs : Variants) → (ordinal index : Nat) → vs.Impl → Bytes → Bytes
  | .nil, _, _, _, buf => buf
  | .cons _ elem rest, ordinal, index, v, buf =>
      Variants.serialize rest ordinal (index + 1) v.2
        (if ordinal = index then Elem.serialize elem v.1 buf else buf)
end

/-- Enums and classes are decoded by a handler that gets the accessor itself. -/
def Elem.isGenerated : Elem → Bool
  | .prim _ => false
  | _ => true

/-- The variant a `switch (ord)` goes to, and whether it is a generated one. -/
def Variants.selected : Variants → (ordinal index : Nat) → Option Bool
  | .nil, _, _ => none
  | .cons _ elem rest, ordinal, index =>
      if ordinal = index then some (Elem.isGenerated elem)
      else Variants.selected rest ordinal (index + 1)

variable {σ : Type}

/-- `chooseX()` is an argument of a handler's call, so it runs before the decoding; a
primitive is assigned to its result, so there it runs after. -/
def chooseAnd (generated : Bool) (ordinal : UInt32) (inner : Decode Exc σ Unit) :
    Decode Exc (ChoiceSlot σ) Unit :=
  markAnd generated (fun slot => { slot with ordinal })
    (onPart ChoiceSlot.store (fun slot store => { slot with store }) inner)

def enableAnd (generated : Bool) (inner : Decode Exc σ Unit) : Decode Exc (OptSlot σ) Unit :=
  markAnd generated (fun slot => { slot with has := true })
    (onPart OptSlot.value (fun slot value => { slot with value }) inner)

/-- Decode an item of its own, then push back a copy. -/
def pushItem {maxOccurs : Option Nat} (fresh : σ) (copy : σ → σ) (inner : Decode Exc σ Unit) :
    Decode Exc (AccessorList maxOccurs σ) Unit := do
  let item ← onNew fresh inner
  modifyOrThrow fun list => list.pushBack (copy item)

/-- Clear the list, then decode as many items as the count says. -/
def decodeList {maxOccurs : Option Nat} (buf : Bytes) (fresh : σ) (copy : σ → σ)
    (inner : Decode Exc σ Unit) : Decode Exc (AccessorList maxOccurs σ) Unit := do
  let count ← position (decodeSequenceLength buf)
  assign .clear
  times (pushItem fresh copy inner) count.toNat

/-- No case for the ordinal means `default: break`. -/
def decodeChoice (buf : Bytes) (selected : Nat → Option Bool) (inner : Nat → Decode Exc σ Unit) :
    Decode Exc (ChoiceSlot σ) Unit := do
  let ordinal ← position (decodeUint32 buf)
  match selected ordinal.toNat with
  | none => pure ()
  | some generated => chooseAnd generated ordinal (inner ordinal.toNat)

/-- An absent optional is not cleared. -/
def decodeOptional (buf : Bytes) (generated : Bool) (inner : Decode Exc σ Unit) :
    Decode Exc (OptSlot σ) Unit := do
  let present ← position (decodeOptionalFlag buf)
  if present then enableAnd generated inner else pure ()

mutual
def Elem.deserializeAt (buf : Bytes) : (e : Elem) → Decode Exc e.Impl Unit
  | .prim t => do
      let v ← position (decode buf t)
      assign v
  | .enum _ _ => do
      let v ← position (decodeUint32 buf)
      assign v
  | .cls _ body => Members.deserializeAt buf body

def Members.deserializeAt (buf : Bytes) : (ms : Members) → Decode Exc ms.Impl Unit
  | .nil => pure ()
  | .base _ body rest => do
      onFst (Members.deserializeAt buf body)
      onSnd (Members.deserializeAt buf rest)
  | .choice variants rest => do
      onFst (decodeChoice buf (Variants.selected variants · 1)
        fun ordinal => Variants.deserializeAt buf variants ordinal 1)
      onSnd (Members.deserializeAt buf rest)
  | .required _ elem rest => do
      onFst (Elem.deserializeAt buf elem)
      onSnd (Members.deserializeAt buf rest)
  | .optional _ elem rest => do
      onFst (decodeOptional buf (Elem.isGenerated elem) (Elem.deserializeAt buf elem))
      onSnd (Members.deserializeAt buf rest)
  | .list _ _ elem rest => do
      onFst (decodeList buf elem.fresh (elem.copy elem.fresh) (Elem.deserializeAt buf elem))
      onSnd (Members.deserializeAt buf rest)

def Variants.deserializeAt (buf : Bytes) : (vs : Variants) → (ordinal index : Nat) →
    Decode Exc vs.Impl Unit
  | .nil, _, _ => pure ()
  | .cons _ elem rest, ordinal, index =>
      if ordinal = index then onFst (Elem.deserializeAt buf elem)
      else onSnd (Variants.deserializeAt buf rest ordinal (index + 1))
end

def Elem.deserialize (buf : Bytes) (e : Elem) (v : e.Impl) : Except Exc Unit × e.Impl :=
  match Elem.deserializeAt buf e ⟨0, v⟩ with
  | .ok _ stop => (.ok (), stop.obj)
  | .error error stop => (.error error, stop.obj)

theorem foldl_extends {α : Type} (append : Bytes → α → Bytes)
    (grows : ∀ buf item, buf <+: append buf item) (items : List α) (buf : Bytes) :
    buf <+: items.foldl append buf := by
  induction items generalizing buf with
  | nil => exact List.prefix_refl buf
  | cons item rest ih => exact (grows buf item).trans (ih (append buf item))

mutual
theorem Elem.serialize_extends : (e : Elem) → (v : e.Impl) → (buf : Bytes) →
    buf <+: Elem.serialize e v buf
  | .prim t, v, buf => by
      simp only [Elem.serialize]
      exact encode_extends t buf v
  | .enum _ _, v, buf => by
      simp only [Elem.serialize]
      exact encodeUint32_extends buf v
  | .cls _ body, v, buf => by
      simp only [Elem.serialize]
      exact Members.serialize_extends body v buf

theorem Members.serialize_extends : (ms : Members) → (v : ms.Impl) → (buf : Bytes) →
    buf <+: Members.serialize ms v buf
  | .nil, _, buf => by
      simp only [Members.serialize]
      exact List.prefix_refl buf
  | .base _ body rest, v, buf => by
      simp only [Members.serialize]
      exact (Members.serialize_extends body v.1 buf).trans (Members.serialize_extends rest v.2 _)
  | .choice variants rest, v, buf => by
      simp only [Members.serialize]
      exact ((encodeUint32_extends buf _).trans (Variants.serialize_extends variants _ 1 _ _)).trans
        (Members.serialize_extends rest v.2 _)
  | .required _ elem rest, v, buf => by
      simp only [Members.serialize]
      exact (Elem.serialize_extends elem v.1 buf).trans (Members.serialize_extends rest v.2 _)
  | .optional _ elem rest, v, buf => by
      simp only [Members.serialize]
      refine List.IsPrefix.trans ?_ (Members.serialize_extends rest v.2 _)
      have flag : buf <+: encodeOptionalFlag buf v.1.has := List.prefix_append _ _
      split
      · exact flag.trans (Elem.serialize_extends elem v.1.value _)
      · exact flag
  | .list _ _ elem rest, v, buf => by
      simp only [Members.serialize]
      refine List.IsPrefix.trans ?_ (Members.serialize_extends rest v.2 _)
      exact (encodeUint32_extends buf _).trans
        (foldl_extends _ (fun buf item => Elem.serialize_extends elem item buf) v.1.items _)

theorem Variants.serialize_extends : (vs : Variants) → (ordinal index : Nat) → (v : vs.Impl) →
    (buf : Bytes) → buf <+: Variants.serialize vs ordinal index v buf
  | .nil, _, _, _, buf => by
      simp only [Variants.serialize]
      exact List.prefix_refl buf
  | .cons _ elem rest, ordinal, index, v, buf => by
      simp only [Variants.serialize]
      refine List.IsPrefix.trans ?_ (Variants.serialize_extends rest ordinal (index + 1) v.2 _)
      split
      · exact Elem.serialize_extends elem v.1 buf
      · exact List.prefix_refl buf
end

end Arcal.Cdr
