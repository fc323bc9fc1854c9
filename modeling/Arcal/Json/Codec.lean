import Arcal.Cdr.Codec
import Arcal.Json.Primitives
import Arcal.Lib.Focus

/-! The generated JSON handlers: `T_serialize`, `T_serialize_fields`, `T_deserialize` and
`T_deserialize_fields` of every class, unfolded over the class's storage. -/

namespace Arcal.Json

open Schema Focus
open JsonText (Value)

variable (fp : Floating)

def emitItems {α : Type} (emit : α → Bytes → Bytes) (items : List α) (out : Bytes) : Bytes :=
  let done := items.foldl
    (fun (state : Bytes × Bool) item =>
      (emit item (if state.2 then state.1 else state.1 ++ utf8 ","), false))
    (out ++ utf8 "[", true)
  done.1 ++ utf8 "]"

mutual
def Elem.serialize : (e : Elem) → e.Impl → Bytes → Bytes
  | .prim t, v, out => emitValue fp t v out
  | .enum _ enumValues, v, out => emitString (toName enumValues v) out
  | .cls _ body, v, out =>
      (Members.serializeFields body v (out ++ utf8 "\x7b", true)).1 ++ utf8 "\x7d"

/-- `T_serialize_fields`: the state is the text and the flag `first`. -/
def Members.serializeFields : (ms : Members) → ms.Impl → Bytes × Bool → Bytes × Bool
  | .nil, _, state => state
  | .base _ body rest, v, state =>
      Members.serializeFields rest v.2 (Members.serializeFields body v.1 state)
  | .choice variants rest, v, state =>
      Members.serializeFields rest v.2
        (Variants.serialize variants v.1.ordinal.toNat 1 v.1.store state)
  | .required name elem rest, v, state =>
      let keyed := emitKey (utf8 name) state.1 state.2
      Members.serializeFields rest v.2 (Elem.serialize elem v.1 keyed.1, keyed.2)
  | .optional name elem rest, v, state =>
      let keyed := emitKey (utf8 name) state.1 state.2
      Members.serializeFields rest v.2
        (if v.1.has then (Elem.serialize elem v.1.value keyed.1, keyed.2) else state)
  | .list name _ elem rest, v, state =>
      let keyed := emitKey (utf8 name) state.1 state.2
      Members.serializeFields rest v.2
        (emitItems (fun item out => Elem.serialize elem item out) v.1.items keyed.1, keyed.2)

def Variants.serialize : (vs : Variants) → (ordinal index : Nat) → vs.Impl → Bytes × Bool →
    Bytes × Bool
  | .nil, _, _, _, state => state
  | .cons name elem rest, ordinal, index, v, state =>
      let keyed := emitKey (utf8 name) state.1 state.2
      Variants.serialize rest ordinal (index + 1) v.2
        (if ordinal = index then (Elem.serialize elem v.1 keyed.1, keyed.2) else state)
end

/-- The enum branch: whatever `fromName` throws is thrown again as a `UCIException`. -/
def parseEnum [CaseTable] (name : String) (enumValues : List String) (value : Value) :
    Except Exc UInt32 :=
  match value with
  | .string text =>
      match fromName name enumValues text with
      | .ok item => .ok item
      | .error e => .error (.uciException
          (utf8 "JsonExternalizer::read: " ++ utf8 name ++ utf8 ": " ++ e.what))
  | _ => .error (complaint "expected enum string for " (utf8 name))

def fieldContext (typeName name : String) : Bytes := utf8 typeName ++ utf8 "." ++ utf8 name

variable {σ τ : Type}

/-- `chooseX()` is an argument of a handler's call, so it runs before the handler; a
primitive is assigned to its result, so there it runs after the parsing. -/
def chooseAnd (generated : Bool) (ordinal : UInt32) (inner : Fill Exc σ Unit) :
    Fill Exc (ChoiceSlot (σ × τ)) Unit :=
  markAnd generated (fun slot => { slot with ordinal })
    (within (fun slot => slot.store.1)
      (fun slot chosen => { slot with store := (chosen, slot.store.2) }) inner)

def onLater {α : Type} (inner : Fill Exc (ChoiceSlot τ) α) :
    Fill Exc (ChoiceSlot (σ × τ)) α :=
  within (fun slot => ⟨slot.ordinal, slot.store.2⟩)
    (fun slot later => ⟨later.ordinal, (slot.store.1, later.store)⟩) inner

def enableAnd (generated : Bool) (inner : Fill Exc σ Unit) : Fill Exc (OptSlot σ) Unit :=
  markAnd generated (fun slot => { slot with has := true })
    (within OptSlot.value (fun slot value => { slot with value }) inner)

def pushItem {maxOccurs : Option Nat} (fresh : σ) (copy : σ → σ)
    (inner : Value → Fill Exc σ Unit) (itemJson : Value) :
    Fill Exc (AccessorList maxOccurs σ) Unit := do
  let item ← onNew fresh (inner itemJson)
  modifyOrThrow fun list => list.pushBack (copy item)

def fillList {maxOccurs : Option Nat} (fresh : σ) (copy : σ → σ)
    (inner : Value → Fill Exc σ Unit) (items : List Value) :
    Fill Exc (AccessorList maxOccurs σ) Unit := do
  set (AccessorList.clear : AccessorList maxOccurs σ)
  each (pushItem fresh copy inner) items

/-- An optional that is not in the object is cleared. -/
def fillOptional (generated : Bool) (member : Option Value) (inner : Value → Fill Exc σ Unit) :
    Fill Exc (OptSlot σ) Unit :=
  match member with
  | some value => enableAnd generated (inner value)
  | none => modify fun slot => { slot with has := false }

/-- One variant: count it if it is there. -/
def fillVariant (generated : Bool) (ordinal : UInt32) (member : Option Value)
    (inner : Value → Fill Exc σ Unit) : Fill Exc (ChoiceSlot (σ × τ)) Nat :=
  match member with
  | some value => do
      chooseAnd generated ordinal (inner value)
      return 1
  | none => return 0

def checkMatched (typeName : String) (matched : Nat) : Except Exc Unit :=
  if matched > 1 then
    .error (complaint "multiple choice variants present for " (utf8 typeName))
  else .ok ()

mutual
def Elem.deserialize [CaseTable] (context : Bytes) : (e : Elem) → Value → Fill Exc e.Impl Unit
  | .prim t, value => do
      let v ← attempt (parseValue fp t value context)
      set v
  | .enum name enumValues, value => do
      let v ← attempt (parseEnum name enumValues value)
      set v
  | .cls name body, value => do
      let _ ← attempt (requireObject value (utf8 name))
      Members.deserializeFields name body value

def Members.deserializeFields [CaseTable] (typeName : String) : (ms : Members) → Value →
    Fill Exc ms.Impl Unit
  | .nil, _ => pure ()
  | .base name body rest, value => do
      onFst (do
        let _ ← attempt (requireObject value (utf8 name))
        Members.deserializeFields name body value)
      onSnd (Members.deserializeFields typeName rest value)
  | .choice variants rest, value => do
      let matched ← onFst (Variants.deserialize typeName variants 1 value)
      attempt (checkMatched typeName matched)
      onSnd (Members.deserializeFields typeName rest value)
  | .required name elem rest, value => do
      let member ← attempt (requireMember value (utf8 name) (utf8 typeName))
      onFst (Elem.deserialize (fieldContext typeName name) elem member)
      onSnd (Members.deserializeFields typeName rest value)
  | .optional name elem rest, value => do
      let member ← attempt (optionalMember value (utf8 name) (utf8 typeName))
      onFst (fillOptional (Cdr.Elem.isGenerated elem) member
        fun inner => Elem.deserialize (fieldContext typeName name) elem inner)
      onSnd (Members.deserializeFields typeName rest value)
  | .list name _ elem rest, value => do
      let member ← attempt (requireMember value (utf8 name) (utf8 typeName))
      let items ← attempt (requireArray member (fieldContext typeName name))
      onFst (fillList elem.fresh (elem.copy elem.fresh)
        (fun itemJson => Elem.deserialize (fieldContext typeName name) elem itemJson) items)
      onSnd (Members.deserializeFields typeName rest value)

/-- Every variant that is there is read; their number comes back. -/
def Variants.deserialize [CaseTable] (typeName : String) : (vs : Variants) → (index : Nat) → Value →
    Fill Exc (ChoiceSlot vs.Impl) Nat
  | .nil, _, _ => pure 0
  | .cons name elem rest, index, value => do
      let member ← attempt (optionalMember value (utf8 name) (utf8 typeName))
      let here ← fillVariant (Cdr.Elem.isGenerated elem) (UInt32.ofNat index) member
        fun inner => Elem.deserialize (fieldContext typeName name) elem inner
      let later ← onLater (Variants.deserialize typeName rest (index + 1) value)
      return here + later
end

end Arcal.Json
