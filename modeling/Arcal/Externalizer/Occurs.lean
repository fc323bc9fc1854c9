import Arcal.Accessor.Stored
import Arcal.Json.Codec

/-! The generated deserializers on objects as they are stored. No run of theirs, whether it
returns or throws, leaves a list with more elements than its class allows. -/

namespace Arcal

open Schema Simulation

namespace Cdr

open InPlace

section Lists

variable {α StorageT : Type} {maxOccurs : Option Nat}

def pushStored (fresh : StorageT) (copy : StorageT → Except Exc StorageT)
    (inner : Decode Exc StorageT Unit) : Decode Exc (ListStorage maxOccurs StorageT) Unit := do
  let item ← onNew fresh inner
  onObject (ListStorage.pushBack copy item maxOccurs)

def decodeStoredList (buf : Bytes) (fresh : StorageT) (copy : StorageT → Except Exc StorageT)
    (inner : Decode Exc StorageT Unit) : Decode Exc (ListStorage maxOccurs StorageT) Unit := do
  let count ← position (decodeSequenceLength buf)
  onObject (ListStorage.clear maxOccurs)
  times (pushStored fresh copy inner) count.toNat

theorem pushItem_seen {f : α → StorageT} {fresh : α} {copy : StorageT → Except Exc StorageT}
    {made : α → α} (makes : ∀ v, copy (f v) = .ok (f (made v))) {inner : Decode Exc α Unit}
    {inner' : Decode Exc StorageT Unit} (seen : Seen (onCursor f) id inner inner') :
    Seen (onCursor (ListStorage.ofList f maxOccurs)) id (pushItem fresh made inner)
      (pushStored (f fresh) copy inner') := by
  apply (Seen.onNew fresh seen).bind
  intro item
  rw [modifyOrThrow_eq]
  exact (ListStorage.pushBack_seen (makes item) maxOccurs).onObject

theorem decodeList_seen (buf : Bytes) (maxOccurs : Option Nat) {f : α → StorageT}
    {fresh : α} {fresh' : StorageT} (same : f fresh = fresh')
    {copy : StorageT → Except Exc StorageT} {made : α → α}
    (makes : ∀ v, copy (f v) = .ok (f (made v))) {inner : Decode Exc α Unit}
    {inner' : Decode Exc StorageT Unit} (seen : Seen (onCursor f) id inner inner') :
    Seen (onCursor (ListStorage.ofList f maxOccurs)) id (decodeList buf fresh made inner)
      (decodeStoredList buf fresh' copy inner') := by
  subst same
  apply (Seen.position _).bind
  intro count
  apply ((ListStorage.clear_seen f maxOccurs).onObject).bind
  intro _
  exact (pushItem_seen makes seen).times count.toNat

end Lists

mutual
def Elem.deserializeAtStored (buf : Bytes) : (e : Elem) → Decode Exc e.Stored Unit
  | .prim t => do
      let v ← position (decode buf t)
      assign v
  | .enum _ _ => do
      let v ← position (decodeUint32 buf)
      assign v
  | .cls _ body => Members.deserializeAtStored buf body

def Members.deserializeAtStored (buf : Bytes) : (ms : Members) → Decode Exc ms.Stored Unit
  | .nil => pure ()
  | .base _ body rest => do
      onFst (Members.deserializeAtStored buf body)
      onSnd (Members.deserializeAtStored buf rest)
  | .choice variants rest => do
      onFst (decodeChoice buf (Variants.selected variants · 1)
        fun ordinal => Variants.deserializeAtStored buf variants ordinal 1)
      onSnd (Members.deserializeAtStored buf rest)
  | .required _ elem rest => do
      onFst (Elem.deserializeAtStored buf elem)
      onSnd (Members.deserializeAtStored buf rest)
  | .optional _ elem rest => do
      onFst (decodeOptional buf (Elem.isGenerated elem) (Elem.deserializeAtStored buf elem))
      onSnd (Members.deserializeAtStored buf rest)
  | .list _ _ elem rest => do
      onFst (decodeStoredList buf elem.freshStored (elem.copyStored elem.freshStored)
        (Elem.deserializeAtStored buf elem))
      onSnd (Members.deserializeAtStored buf rest)

def Variants.deserializeAtStored (buf : Bytes) : (vs : Variants) → (ordinal index : Nat) →
    Decode Exc vs.Stored Unit
  | .nil, _, _ => pure ()
  | .cons _ elem rest, ordinal, index =>
      if ordinal = index then onFst (Elem.deserializeAtStored buf elem)
      else onSnd (Variants.deserializeAtStored buf rest ordinal (index + 1))
end

section Slots

variable {α StorageT : Type} {f : α → StorageT}

theorem chooseAnd_seen (generated : Bool) (ordinal : UInt32) {inner : Decode Exc α Unit}
    {inner' : Decode Exc StorageT Unit} (seen : Seen (onCursor f) id inner inner') :
    Seen (onCursor (ChoiceSlot.map f)) id (chooseAnd generated ordinal inner)
      (chooseAnd generated ordinal inner') := by
  have gets : ∀ slot : ChoiceSlot α, (slot.map f).store = f slot.store := fun _ => rfl
  have puts : ∀ (slot : ChoiceSlot α) store,
      { slot.map f with store := f store } = ChoiceSlot.map f { slot with store } := fun _ _ => rfl
  have marks : ∀ slot : ChoiceSlot α,
      { slot.map f with ordinal } = ChoiceSlot.map f { slot with ordinal } := fun _ => rfl
  exact Seen.markAnd marks (Seen.onPart gets puts seen)

theorem decodeChoice_seen (buf : Bytes) (selected : Nat → Option Bool)
    {inner : Nat → Decode Exc α Unit} {inner' : Nat → Decode Exc StorageT Unit}
    (seen : ∀ ordinal, Seen (onCursor f) id (inner ordinal) (inner' ordinal)) :
    Seen (onCursor (ChoiceSlot.map f)) id (decodeChoice buf selected inner)
      (decodeChoice buf selected inner') := by
  apply (Seen.position _).bind
  intro ordinal
  dsimp only [id_eq]
  cases selected ordinal.toNat with
  | none => exact Seen.pure ()
  | some generated => exact chooseAnd_seen generated ordinal (seen ordinal.toNat)

theorem enableAnd_seen (generated : Bool) {inner : Decode Exc α Unit}
    {inner' : Decode Exc StorageT Unit} (seen : Seen (onCursor f) id inner inner') :
    Seen (onCursor (OptSlot.map f)) id (enableAnd generated inner)
      (enableAnd generated inner') := by
  have gets : ∀ slot : OptSlot α, (slot.map f).value = f slot.value := fun _ => rfl
  have puts : ∀ (slot : OptSlot α) value,
      { slot.map f with value := f value } = OptSlot.map f { slot with value } := fun _ _ => rfl
  have marks : ∀ slot : OptSlot α,
      { slot.map f with has := true } = OptSlot.map f { slot with has := true } := fun _ => rfl
  exact Seen.markAnd marks (Seen.onPart gets puts seen)

theorem decodeOptional_seen (buf : Bytes) (generated : Bool) {inner : Decode Exc α Unit}
    {inner' : Decode Exc StorageT Unit} (seen : Seen (onCursor f) id inner inner') :
    Seen (onCursor (OptSlot.map f)) id (decodeOptional buf generated inner)
      (decodeOptional buf generated inner') := by
  apply (Seen.position _).bind
  intro present
  exact Seen.ite (enableAnd_seen generated seen) (Seen.pure ())

end Slots

theorem copyStored_fresh (elem : Elem) (item : elem.Impl) :
    elem.copyStored elem.freshStored (elem.stored item) =
      .ok (elem.stored (elem.copy elem.fresh item)) := by
  rw [← elem.stored_fresh]
  exact elem.copyStored_stored elem.fresh item

mutual
theorem Elem.deserializeAt_seen (buf : Bytes) : (e : Elem) →
    Seen (onCursor e.stored) id (Elem.deserializeAt buf e) (Elem.deserializeAtStored buf e)
  | .prim t => by
      simp only [Elem.deserializeAt, Elem.deserializeAtStored, Elem.stored]
      exact (Seen.position _).bind fun v => Seen.assign v
  | .enum _ _ => by
      simp only [Elem.deserializeAt, Elem.deserializeAtStored, Elem.stored]
      exact (Seen.position _).bind fun v => Seen.assign v
  | .cls _ body => by
      simp only [Elem.deserializeAt, Elem.deserializeAtStored, Elem.stored]
      exact Members.deserializeAt_seen buf body

theorem Members.deserializeAt_seen (buf : Bytes) : (ms : Members) →
    Seen (onCursor ms.stored) id (Members.deserializeAt buf ms) (Members.deserializeAtStored buf ms)
  | .nil => Seen.pure ()
  | .base _ body rest => by
      simp only [Members.deserializeAt, Members.deserializeAtStored, Members.stored]
      exact (Seen.onFst (Members.deserializeAt_seen buf body)).bind fun _ =>
        Seen.onSnd (Members.deserializeAt_seen buf rest)
  | .choice variants rest => by
      simp only [Members.deserializeAt, Members.deserializeAtStored, Members.stored]
      have chosen := decodeChoice_seen buf (Variants.selected variants · 1) fun ordinal =>
        Variants.deserializeAt_seen buf variants ordinal 1
      exact (Seen.onFst chosen).bind fun _ => Seen.onSnd (Members.deserializeAt_seen buf rest)
  | .required _ elem rest => by
      simp only [Members.deserializeAt, Members.deserializeAtStored, Members.stored]
      exact (Seen.onFst (Elem.deserializeAt_seen buf elem)).bind fun _ =>
        Seen.onSnd (Members.deserializeAt_seen buf rest)
  | .optional _ elem rest => by
      simp only [Members.deserializeAt, Members.deserializeAtStored, Members.stored]
      have filled := decodeOptional_seen buf (Elem.isGenerated elem)
        (Elem.deserializeAt_seen buf elem)
      exact (Seen.onFst filled).bind fun _ => Seen.onSnd (Members.deserializeAt_seen buf rest)
  | .list _ maxOccurs elem rest => by
      simp only [Members.deserializeAt, Members.deserializeAtStored, Members.stored]
      have filled := decodeList_seen buf maxOccurs elem.stored_fresh (copyStored_fresh elem)
        (Elem.deserializeAt_seen buf elem)
      exact (Seen.onFst filled).bind fun _ => Seen.onSnd (Members.deserializeAt_seen buf rest)

theorem Variants.deserializeAt_seen (buf : Bytes) : (vs : Variants) → (ordinal index : Nat) →
    Seen (onCursor vs.stored) id (Variants.deserializeAt buf vs ordinal index)
      (Variants.deserializeAtStored buf vs ordinal index)
  | .nil, _, _ => Seen.pure ()
  | .cons _ elem rest, ordinal, index => by
      simp only [Variants.deserializeAt, Variants.deserializeAtStored, Variants.stored]
      exact Seen.ite (Seen.onFst (Elem.deserializeAt_seen buf elem))
        (Seen.onSnd (Variants.deserializeAt_seen buf rest ordinal (index + 1)))
end

end Cdr

namespace Json

open Focus
open JsonText (Value)

variable (fp : Floating)

section Lists

variable {α StorageT : Type} {maxOccurs : Option Nat}

def pushStored (fresh : StorageT) (copy : StorageT → Except Exc StorageT)
    (inner : Value → Fill Exc StorageT Unit) (itemJson : Value) :
    Fill Exc (ListStorage maxOccurs StorageT) Unit := do
  let item ← onNew fresh (inner itemJson)
  ListStorage.pushBack copy item maxOccurs

def fillStoredList (fresh : StorageT) (copy : StorageT → Except Exc StorageT)
    (inner : Value → Fill Exc StorageT Unit) (items : List Value) :
    Fill Exc (ListStorage maxOccurs StorageT) Unit := do
  ListStorage.clear maxOccurs
  each (pushStored fresh copy inner) items

theorem fillList_seen (maxOccurs : Option Nat) {f : α → StorageT} {fresh : α}
    {fresh' : StorageT} (same : f fresh = fresh') {copy : StorageT → Except Exc StorageT}
    {made : α → α} (makes : ∀ v, copy (f v) = .ok (f (made v)))
    {inner : Value → Fill Exc α Unit} {inner' : Value → Fill Exc StorageT Unit}
    (seen : ∀ value, Seen f id (inner value) (inner' value)) (items : List Value) :
    Seen (ListStorage.ofList f maxOccurs) id (fillList fresh made inner items)
      (fillStoredList fresh' copy inner' items) := by
  subst same
  apply (ListStorage.clear_seen f maxOccurs).bind
  intro _
  apply Seen.each
  intro itemJson
  apply (Seen.fillNew fresh (seen itemJson)).bind
  intro item
  exact ListStorage.pushBack_seen (makes item) maxOccurs

end Lists

mutual
def Elem.deserializeStored [CaseTable] (context : Bytes) :
    (e : Elem) → Value → Fill Exc e.Stored Unit
  | .prim t, value => do
      let v ← attempt (parseValue fp t value context)
      set v
  | .enum name enumValues, value => do
      let v ← attempt (parseEnum name enumValues value)
      set v
  | .cls name body, value => do
      let _ ← attempt (requireObject value (utf8 name))
      Members.deserializeFieldsStored name body value

def Members.deserializeFieldsStored [CaseTable] (typeName : String) : (ms : Members) → Value →
    Fill Exc ms.Stored Unit
  | .nil, _ => pure ()
  | .base name body rest, value => do
      onFst (do
        let _ ← attempt (requireObject value (utf8 name))
        Members.deserializeFieldsStored name body value)
      onSnd (Members.deserializeFieldsStored typeName rest value)
  | .choice variants rest, value => do
      let matched ← onFst (Variants.deserializeStored typeName variants 1 value)
      attempt (checkMatched typeName matched)
      onSnd (Members.deserializeFieldsStored typeName rest value)
  | .required name elem rest, value => do
      let member ← attempt (requireMember value (utf8 name) (utf8 typeName))
      onFst (Elem.deserializeStored (fieldContext typeName name) elem member)
      onSnd (Members.deserializeFieldsStored typeName rest value)
  | .optional name elem rest, value => do
      let member ← attempt (optionalMember value (utf8 name) (utf8 typeName))
      onFst (fillOptional (Cdr.Elem.isGenerated elem) member
        fun inner => Elem.deserializeStored (fieldContext typeName name) elem inner)
      onSnd (Members.deserializeFieldsStored typeName rest value)
  | .list name _ elem rest, value => do
      let member ← attempt (requireMember value (utf8 name) (utf8 typeName))
      let items ← attempt (requireArray member (fieldContext typeName name))
      onFst (fillStoredList elem.freshStored (elem.copyStored elem.freshStored)
        (fun itemJson => Elem.deserializeStored (fieldContext typeName name) elem itemJson) items)
      onSnd (Members.deserializeFieldsStored typeName rest value)

def Variants.deserializeStored [CaseTable] (typeName : String) : (vs : Variants) →
    (index : Nat) → Value →
    Fill Exc (ChoiceSlot vs.Stored) Nat
  | .nil, _, _ => pure 0
  | .cons name elem rest, index, value => do
      let member ← attempt (optionalMember value (utf8 name) (utf8 typeName))
      let here ← fillVariant (Cdr.Elem.isGenerated elem) (UInt32.ofNat index) member
        fun inner => Elem.deserializeStored (fieldContext typeName name) elem inner
      let later ← onLater (Variants.deserializeStored typeName rest (index + 1) value)
      return here + later
end

section Slots

variable {α β σ τ : Type} {f : α → σ} {g : β → τ}

theorem fillOptional_seen (generated : Bool) (member : Option Value)
    {inner : Value → Fill Exc α Unit} {inner' : Value → Fill Exc σ Unit}
    (seen : ∀ value, Seen f id (inner value) (inner' value)) :
    Seen (OptSlot.map f) id (fillOptional generated member inner)
      (fillOptional generated member inner') := by
  have gets : ∀ slot : OptSlot α, (slot.map f).value = f slot.value := fun _ => rfl
  have puts : ∀ (slot : OptSlot α) value,
      { slot.map f with value := f value } = OptSlot.map f { slot with value } := fun _ _ => rfl
  have marks : ∀ slot : OptSlot α,
      { slot.map f with has := true } = OptSlot.map f { slot with has := true } := fun _ => rfl
  cases member with
  | none => exact Seen.modify fun _ => rfl
  | some value => exact Seen.fillMark marks (Seen.within gets puts (seen value))

theorem chooseAnd_seen (generated : Bool) (ordinal : UInt32) {inner : Fill Exc α Unit}
    {inner' : Fill Exc σ Unit} (seen : Seen f id inner inner') :
    Seen (ChoiceSlot.map (Prod.map f g)) id (chooseAnd generated ordinal inner)
      (chooseAnd generated ordinal inner') := by
  have marks : ∀ slot : ChoiceSlot (α × β),
      { slot.map (Prod.map f g) with ordinal } =
        ChoiceSlot.map (Prod.map f g) { slot with ordinal } := fun _ => rfl
  apply Seen.fillMark marks
  apply Seen.within ?_ ?_ seen
  · exact fun _ => rfl
  · exact fun _ _ => rfl

theorem fillVariant_seen (generated : Bool) (ordinal : UInt32) (member : Option Value)
    {inner : Value → Fill Exc α Unit} {inner' : Value → Fill Exc σ Unit}
    (seen : ∀ value, Seen f id (inner value) (inner' value)) :
    Seen (ChoiceSlot.map (Prod.map f g)) id (fillVariant generated ordinal member inner)
      (fillVariant generated ordinal member inner') := by
  cases member with
  | none => exact Seen.pure 0
  | some value => exact (chooseAnd_seen generated ordinal (seen value)).bind fun _ => Seen.pure 1

theorem onLater_seen {δ : Type} {m : Fill Exc (ChoiceSlot β) δ} {n : Fill Exc (ChoiceSlot τ) δ}
    (seen : Seen (ChoiceSlot.map g) id m n) :
    Seen (ChoiceSlot.map (Prod.map f g)) id (onLater m) (onLater n) := by
  have gets : ∀ slot : ChoiceSlot (α × β),
      (⟨slot.ordinal, (Prod.map f g slot.store).2⟩ : ChoiceSlot τ) =
        ChoiceSlot.map g ⟨slot.ordinal, slot.store.2⟩ := fun _ => rfl
  have puts : ∀ (slot : ChoiceSlot (α × β)) (later : ChoiceSlot β),
      (⟨later.ordinal, ((Prod.map f g slot.store).1, g later.store)⟩ : ChoiceSlot (σ × τ)) =
        ChoiceSlot.map (Prod.map f g) ⟨later.ordinal, (slot.store.1, later.store)⟩ :=
    fun _ _ => rfl
  exact Seen.within gets puts seen

end Slots

mutual
theorem Elem.deserialize_seen [CaseTable] (context : Bytes) : (e : Elem) → (value : Value) →
    Seen e.stored id (Elem.deserialize fp context e value)
      (Elem.deserializeStored fp context e value)
  | .prim t, value => by
      simp only [Elem.deserialize, Elem.deserializeStored, Elem.stored]
      exact (Seen.attempt _).bind fun v => Seen.set v
  | .enum _ _, value => by
      simp only [Elem.deserialize, Elem.deserializeStored, Elem.stored]
      exact (Seen.attempt _).bind fun v => Seen.set v
  | .cls name body, value => by
      simp only [Elem.deserialize, Elem.deserializeStored, Elem.stored]
      exact (Seen.attempt _).bind fun _ => Members.deserializeFields_seen name body value

theorem Members.deserializeFields_seen [CaseTable] (typeName : String) : (ms : Members) →
    (value : Value) →
    Seen ms.stored id (Members.deserializeFields fp typeName ms value)
      (Members.deserializeFieldsStored fp typeName ms value)
  | .nil, _ => Seen.pure ()
  | .base name body rest, value => by
      simp only [Members.deserializeFields, Members.deserializeFieldsStored, Members.stored]
      have front : Seen body.stored id
          (attempt (requireObject value (utf8 name)) >>= fun _ =>
            Members.deserializeFields fp name body value)
          (attempt (requireObject value (utf8 name)) >>= fun _ =>
            Members.deserializeFieldsStored fp name body value) :=
        (Seen.attempt _).bind fun _ => Members.deserializeFields_seen name body value
      exact (Seen.fillFst front).bind fun _ =>
        Seen.fillSnd (Members.deserializeFields_seen typeName rest value)
  | .choice variants rest, value => by
      simp only [Members.deserializeFields, Members.deserializeFieldsStored, Members.stored]
      apply (Seen.fillFst (Variants.deserialize_seen typeName variants 1 value)).bind
      intro matched
      apply (Seen.attempt _).bind
      intro _
      exact Seen.fillSnd (Members.deserializeFields_seen typeName rest value)
  | .required name elem rest, value => by
      simp only [Members.deserializeFields, Members.deserializeFieldsStored, Members.stored]
      apply (Seen.attempt _).bind
      intro member
      apply (Seen.fillFst (Elem.deserialize_seen (fieldContext typeName name) elem member)).bind
      intro _
      exact Seen.fillSnd (Members.deserializeFields_seen typeName rest value)
  | .optional name elem rest, value => by
      simp only [Members.deserializeFields, Members.deserializeFieldsStored, Members.stored]
      apply (Seen.attempt _).bind
      intro member
      apply (Seen.fillFst (fillOptional_seen _ member fun inner =>
        Elem.deserialize_seen (fieldContext typeName name) elem inner)).bind
      intro _
      exact Seen.fillSnd (Members.deserializeFields_seen typeName rest value)
  | .list name maxOccurs elem rest, value => by
      simp only [Members.deserializeFields, Members.deserializeFieldsStored, Members.stored]
      apply (Seen.attempt _).bind
      intro member
      apply (Seen.attempt _).bind
      intro items
      apply (Seen.fillFst (fillList_seen maxOccurs elem.stored_fresh (Cdr.copyStored_fresh elem)
        (fun itemJson => Elem.deserialize_seen (fieldContext typeName name) elem itemJson)
        items)).bind
      intro _
      exact Seen.fillSnd (Members.deserializeFields_seen typeName rest value)

theorem Variants.deserialize_seen [CaseTable] (typeName : String) : (vs : Variants) →
    (index : Nat) →
    (value : Value) →
    Seen (ChoiceSlot.map vs.stored) id (Variants.deserialize fp typeName vs index value)
      (Variants.deserializeStored fp typeName vs index value)
  | .nil, _, _ => Seen.pure 0
  | .cons name elem rest, index, value => by
      simp only [Variants.deserialize, Variants.deserializeStored, Variants.stored]
      apply (Seen.attempt _).bind
      intro member
      apply (fillVariant_seen _ _ member fun inner =>
        Elem.deserialize_seen (fieldContext typeName name) elem inner).bind
      intro here
      apply (onLater_seen (Variants.deserialize_seen typeName rest (index + 1) value)).bind
      intro later
      exact Seen.pure (here + later)
end

end Json

namespace Externalizer

theorem cdr_within (buf : Bytes) (off : Nat) {e : Elem} {d : e.Stored} (within : e.Within d) :
    e.Within (left (Cdr.Elem.deserializeAtStored buf e ⟨off, d⟩)).obj := by
  rcases e.exists_stored d within with ⟨v, same⟩
  have run := Cdr.Elem.deserializeAt_seen buf e ⟨off, v⟩
  rw [← same]
  change e.Within (left (Cdr.Elem.deserializeAtStored buf e (onCursor e.stored ⟨off, v⟩))).obj
  rw [run, left_image]
  exact e.stored_within _

theorem json_within [CaseTable] (fp : Json.Floating) (context : Bytes) (value : JsonText.Value)
    {e : Elem}
    {d : e.Stored} (within : e.Within d) :
    e.Within (left (Json.Elem.deserializeStored fp context e value d)) := by
  rcases e.exists_stored d within with ⟨v, same⟩
  have run := Json.Elem.deserialize_seen fp context e value v
  rw [← same, run, left_image]
  exact e.stored_within _

theorem fresh_within (e : Elem) : e.Within e.freshStored := by
  rw [← e.stored_fresh]
  exact e.stored_within e.fresh

/-- Whatever is done to the lists of a class, none has more elements than the class allows, and a
call that throws has changed none of them. Whatever bytes or document a handler is given, and
however it ends, the same holds of every list in the object it was to fill. -/
theorem bounds_kept [CaseTable] {ι T StorageT : Type} [DecidableEq ι]
    (copy : T → Except Exc StorageT)
    (new : StorageT) (maxSize maxOccurs : Nat) {calls : List (Call ι T StorageT)}
    {lists : ι → BoundedListImpl StorageT}
    (whole : Transition.run (callStep copy new maxSize) (fun _ => BoundedListImpl.init maxOccurs)
      calls = some lists)
    (e : Elem) (d : e.Stored) (within : e.Within d) :
    (∀ i, (lists i).size ≤ maxOccurs) ∧
    (∀ (call : Call ι T StorageT) thrown after,
      call.perform copy new maxSize lists = .error thrown after → after = lists) ∧
    (∀ buf off, e.Within (left (Cdr.Elem.deserializeAtStored buf e ⟨off, d⟩)).obj) ∧
    ∀ fp context value, e.Within (left (Json.Elem.deserializeStored fp context e value d)) := by
  have bounded := run_bounded whole
  refine ⟨fun i => (bounded i).2, ?_, fun buf off => cdr_within buf off within,
    fun fp context value => json_within fp context value within⟩
  intro call thrown after throws
  have ends : (∃ e, call.perform copy new maxSize lists = .error e lists) ∨
      ∃ last, call.perform copy new maxSize lists = .ok () last ∧ AllBounded maxOccurs last :=
    call.perform_cases bounded
  rcases ends with ⟨_, stops⟩ | ⟨_, goes, _⟩
  · rw [stops] at throws
    injection throws with _ same
    exact same.symm
  · rw [goes] at throws
    cases throws

section Sample

attribute [local instance] latinCase

def oneByteList : Elem := .cls "FlagsType" (.list "flag" (some 1) (.prim .uint8) .nil)

def twoPushes : List (Call Unit UInt8 UInt8) := [.on () (.pushBack 5), .on () (.pushBack 6)]

theorem bounds_kept_flags :
    (∀ i : Unit, ((fun _ => ⟨1, [5]⟩ : Unit → BoundedListImpl UInt8) i).size ≤ 1) ∧
    oneByteList.Within
      (left (Cdr.Elem.deserializeAtStored [0, 0, 0, 2, 5, 6] oneByteList
        ⟨0, oneByteList.freshStored⟩)).obj := by
  have whole : Transition.run (callStep Except.ok (0 : UInt8) 100)
      (fun _ : Unit => BoundedListImpl.init 1) twoPushes = some fun _ => ⟨1, [5]⟩ := by
    rfl
  have kept := bounds_kept Except.ok 0 100 1 whole oneByteList oneByteList.freshStored
    (fresh_within oneByteList)
  exact ⟨kept.1, kept.2.2.1 [0, 0, 0, 2, 5, 6] 0⟩

end Sample

end Externalizer

end Arcal
