import Arcal.Json.Externalizer
import Arcal.Json.Reprint
import Arcal.Lib.JsonEncoded

/-! Text that was read and is written again: what the handlers have taken is text that the
writer can put down and the reader takes back, but for numbers that JSON has no text for. -/

namespace Arcal.Json

open Schema InPlace Focus
open Cdr (Accessor)
open JsonText (Value EncodedMembers)

section Members

variable {object value : Value} {name context : Bytes}

theorem find_encoded {members : List (Bytes × Value)} (encoded : EncodedMembers members)
    (found : find members name = some value) : value.Encoded := by
  obtain ⟨member, first, same⟩ := Option.map_eq_some_iff.mp found
  have inside := List.mem_reverse.mp (List.mem_of_find?_eq_some first)
  rw [← same]
  exact (JsonText.encodedMembers_iff.mp encoded member inside).2

theorem optionalMember_encoded (encoded : object.Encoded)
    (read : optionalMember object name context = .ok (some value)) : value.Encoded := by
  cases object with
  | object members =>
      simp only [Value.Encoded] at encoded
      exact find_encoded encoded (Except.ok.inj read)
  | _ => cases read

theorem requireMember_encoded (encoded : object.Encoded)
    (read : requireMember object name context = .ok value) : value.Encoded := by
  cases object with
  | object members =>
      simp only [Value.Encoded] at encoded
      simp only [requireMember, requireObject, bind, Except.bind] at read
      cases found : find members name with
      | none =>
          rw [found] at read
          cases read
      | some other =>
          rw [found] at read
          exact find_encoded encoded (found.trans (congrArg some (Except.ok.inj read)))
  | _ => cases read

theorem requireArray_encoded {items : List Value} (encoded : value.Encoded)
    (read : requireArray value context = .ok items) : ∀ item ∈ items, item.Encoded := by
  cases value with
  | array held =>
      simp only [Value.Encoded] at encoded
      rw [← Except.ok.inj read]
      exact JsonText.encodedItems_iff.mp encoded
  | _ => cases read

end Members

theorem parseValue_encodable {fp : Floating} {t : CxxType} {value : Value} {context : Bytes}
    {v : t.Value} (encoded : value.Encoded) (read : parseValue fp t value context = .ok v) :
    Encodable t v := by
  cases t with
  | string =>
      cases value with
      | string text =>
          simp only [Value.Encoded] at encoded
          rw [← Except.ok.inj read]
          exact encoded
      | _ => cases read
  | _ => trivial

theorem parseEnum_declared [CaseTable] {name : String} {enumValues : List String} {value : Value}
    {v : UInt32}
    (read : parseEnum name enumValues value = .ok v) : Declared enumValues v := by
  cases value with
  | string text =>
      simp only [parseEnum, fromName] at read
      cases found : (enumNames enumValues).findIdx? (· == text) with
      | none =>
          rw [found] at read
          cases read
      | some i =>
          rw [found] at read
          obtain ⟨bound, _⟩ := List.findIdx?_eq_some_iff_getElem.mp found
          rw [enumNames, List.length_cons, List.length_map] at bound
          rw [← Except.ok.inj read]
          rw [Declared, UInt32.toNat_ofNat']
          exact (Nat.mod_le i (2 ^ 32)).trans (Nat.le_of_lt_succ bound)
  | _ => cases read

section Shown

variable {leaf leaf' : (t : CxxType) → t.Value → Prop} {item item' : List String → UInt32 → Prop}

theorem forall_mem_of_forall₂ {α β : Type} {related : α → β → Prop} {P : α → Prop} {Q : β → Prop}
    (each : ∀ a b, related a b → Q b → P a) {xs : List α} {ys : List β}
    (pairs : List.Forall₂ related xs ys) (all : ∀ y ∈ ys, Q y) : ∀ x ∈ xs, P x := by
  induction pairs with
  | nil =>
      intro x inside
      cases inside
  | cons same _ ih =>
      rw [List.forall_mem_cons] at all ⊢
      exact ⟨each _ _ same all.1, ih all.2⟩

mutual
theorem Elem.Shows.of_agrees : (e : Elem) → {v w : e.Impl} → e.Agrees v w →
    Elem.Shows leaf item e w → Elem.Shows leaf item e v
  | .prim _, _, _, same, shown => by
      simp only [Elem.Agrees] at same
      exact same ▸ shown
  | .enum _ _, _, _, same, shown => by
      simp only [Elem.Agrees] at same
      exact same ▸ shown
  | .cls _ body, _, _, same, shown => by
      simp only [Elem.Agrees, Elem.Shows] at same shown ⊢
      exact Members.Shows.of_agrees body same shown

theorem Members.Shows.of_agrees : (ms : Members) → {v w : ms.Impl} → ms.Agrees v w →
    Members.Shows leaf item ms w → Members.Shows leaf item ms v
  | .nil, _, _, _, _ => by simp only [Members.Shows]
  | .base _ body rest, _, _, same, shown => by
      simp only [Members.Agrees, Members.Shows] at same shown ⊢
      exact ⟨Members.Shows.of_agrees body same.1 shown.1,
        Members.Shows.of_agrees rest same.2 shown.2⟩
  | .choice variants rest, _, _, same, shown => by
      simp only [Members.Agrees, Members.Shows] at same shown ⊢
      obtain ⟨ordinal, stores, others⟩ := same
      rw [ordinal]
      exact ⟨Variants.Shows.of_agrees variants _ 1 stores shown.1,
        Members.Shows.of_agrees rest others shown.2⟩
  | .required _ elem rest, _, _, same, shown => by
      simp only [Members.Agrees, Members.Shows] at same shown ⊢
      exact ⟨Elem.Shows.of_agrees elem same.1 shown.1,
        Members.Shows.of_agrees rest same.2 shown.2⟩
  | .optional _ elem rest, _, _, same, shown => by
      simp only [Members.Agrees, Members.Shows] at same shown ⊢
      obtain ⟨presence, inner, others⟩ := same
      rw [presence]
      exact ⟨fun present => Elem.Shows.of_agrees elem (inner present) (shown.1 present),
        Members.Shows.of_agrees rest others shown.2⟩
  | .list _ _ elem rest, _, _, same, shown => by
      simp only [Members.Agrees, Members.Shows] at same shown ⊢
      have each : ∀ a b, elem.Agrees a b → Elem.Shows leaf item elem b →
          Elem.Shows leaf item elem a := fun _ _ => Elem.Shows.of_agrees elem
      exact ⟨forall_mem_of_forall₂ each same.1 shown.1,
        Members.Shows.of_agrees rest same.2 shown.2⟩

theorem Variants.Shows.of_agrees : (vs : Variants) → (ordinal index : Nat) → {v w : vs.Impl} →
    vs.Agrees ordinal index v w → Variants.Shows leaf item vs ordinal index w →
    Variants.Shows leaf item vs ordinal index v
  | .nil, _, _, _, _, _, _ => by simp only [Variants.Shows]
  | .cons _ elem rest, ordinal, index, _, _, same, shown => by
      simp only [Variants.Agrees, Variants.Shows] at same shown ⊢
      exact ⟨fun chosen => Elem.Shows.of_agrees elem (same.1 chosen) (shown.1 chosen),
        Variants.Shows.of_agrees rest ordinal (index + 1) same.2 shown.2⟩
end

mutual
theorem Elem.Shows.both : (e : Elem) → {v : e.Impl} → Elem.Shows leaf item e v →
    Elem.Shows leaf' item' e v →
    Elem.Shows (fun t v => leaf t v ∧ leaf' t v) (fun names v => item names v ∧ item' names v) e v
  | .prim _, _, first, second => by
      simp only [Elem.Shows] at first second ⊢
      exact ⟨first, second⟩
  | .enum _ _, _, first, second => by
      simp only [Elem.Shows] at first second ⊢
      exact ⟨first, second⟩
  | .cls _ body, _, first, second => by
      simp only [Elem.Shows] at first second ⊢
      exact Members.Shows.both body first second

theorem Members.Shows.both : (ms : Members) → {v : ms.Impl} → Members.Shows leaf item ms v →
    Members.Shows leaf' item' ms v →
    Members.Shows (fun t v => leaf t v ∧ leaf' t v) (fun names v => item names v ∧ item' names v)
      ms v
  | .nil, _, _, _ => by simp only [Members.Shows]
  | .base _ body rest, _, first, second => by
      simp only [Members.Shows] at first second ⊢
      exact ⟨Members.Shows.both body first.1 second.1, Members.Shows.both rest first.2 second.2⟩
  | .choice variants rest, _, first, second => by
      simp only [Members.Shows] at first second ⊢
      exact ⟨Variants.Shows.both variants _ 1 first.1 second.1,
        Members.Shows.both rest first.2 second.2⟩
  | .required _ elem rest, _, first, second => by
      simp only [Members.Shows] at first second ⊢
      exact ⟨Elem.Shows.both elem first.1 second.1, Members.Shows.both rest first.2 second.2⟩
  | .optional _ elem rest, _, first, second => by
      simp only [Members.Shows] at first second ⊢
      exact ⟨fun present => Elem.Shows.both elem (first.1 present) (second.1 present),
        Members.Shows.both rest first.2 second.2⟩
  | .list _ _ elem rest, _, first, second => by
      simp only [Members.Shows] at first second ⊢
      exact ⟨fun held inside => Elem.Shows.both elem (first.1 held inside) (second.1 held inside),
        Members.Shows.both rest first.2 second.2⟩

theorem Variants.Shows.both : (vs : Variants) → (ordinal index : Nat) → {v : vs.Impl} →
    Variants.Shows leaf item vs ordinal index v → Variants.Shows leaf' item' vs ordinal index v →
    Variants.Shows (fun t v => leaf t v ∧ leaf' t v) (fun names v => item names v ∧ item' names v)
      vs ordinal index v
  | .nil, _, _, _, _, _ => by simp only [Variants.Shows]
  | .cons _ elem rest, ordinal, index, _, first, second => by
      simp only [Variants.Shows] at first second ⊢
      exact ⟨fun chosen => Elem.Shows.both elem (first.1 chosen) (second.1 chosen),
        Variants.Shows.both rest ordinal (index + 1) first.2 second.2⟩
end

end Shown

section Read

variable {fp : Floating}

mutual
theorem Elem.isFresh_shows : (e : Elem) → {d : e.Impl} → e.IsFresh d →
    Elem.Shows Encodable Declared e d
  | .prim t, d, fresh => by
      simp only [Elem.IsFresh, Elem.Shows] at fresh ⊢
      cases t with
      | string =>
          rw [fresh rfl]
          exact Utf8.valid_nil
      | _ => trivial
  | .enum _ enumValues, d, fresh => by
      simp only [Elem.IsFresh, Elem.Shows] at fresh ⊢
      rw [fresh]
      exact Nat.zero_le _
  | .cls _ body, _, fresh => by
      simp only [Elem.IsFresh, Elem.Shows] at fresh ⊢
      exact Members.isFresh_shows body fresh

theorem Members.isFresh_shows : (ms : Members) → {d : ms.Impl} → ms.IsFresh d →
    Members.Shows Encodable Declared ms d
  | .nil, _, _ => by simp only [Members.Shows]
  | .base _ body rest, _, fresh => by
      simp only [Members.IsFresh, Members.Shows] at fresh ⊢
      exact ⟨Members.isFresh_shows body fresh.1, Members.isFresh_shows rest fresh.2⟩
  | .choice variants rest, d, fresh => by
      simp only [Members.IsFresh, Members.Shows] at fresh ⊢
      have past : d.1.ordinal.toNat < 1 := by
        rw [fresh.1]
        decide
      exact ⟨Variants.shows_past _ _ variants past d.1.store, Members.isFresh_shows rest fresh.2.2⟩
  | .required _ elem rest, _, fresh => by
      simp only [Members.IsFresh, Members.Shows] at fresh ⊢
      exact ⟨Elem.isFresh_shows elem fresh.1, Members.isFresh_shows rest fresh.2⟩
  | .optional _ elem rest, _, fresh => by
      simp only [Members.IsFresh, Members.Shows] at fresh ⊢
      exact ⟨fun _ => Elem.isFresh_shows elem fresh.2.1, Members.isFresh_shows rest fresh.2.2⟩
  | .list _ _ elem rest, d, fresh => by
      simp only [Members.IsFresh, Members.Shows] at fresh ⊢
      refine ⟨?_, Members.isFresh_shows rest fresh.2⟩
      intro held inside
      rw [fresh.1] at inside
      cases inside
end

theorem attempt_bind_eq_ok {σ α β : Type} {result : Except Exc α} {next : α → Fill Exc σ β}
    {obj obj' : σ} {b : β} (run : (attempt result >>= next) obj = .ok b obj') :
    ∃ a, result = .ok a ∧ next a obj = .ok b obj' := by
  cases attempt_bind_cases result next obj with
  | inl stops =>
      obtain ⟨e, _, failed⟩ := stops
      rw [failed] at run
      cases run
  | inr goes =>
      obtain ⟨a, same, later⟩ := goes
      exact ⟨a, same, later.symm.trans run⟩

theorem each_pushItem_all {σ : Type} {maxOccurs : Option Nat} {fresh : σ} {copy : σ → σ}
    {inner : Value → Fill Exc σ Unit} {holds : σ → Prop} {items : List Value}
    (reads : ∀ item ∈ items, ∀ made, inner item fresh = .ok () made → holds (copy made))
    {list longer : AccessorList maxOccurs σ} (before : ∀ held ∈ list.items, holds held)
    (run : each (pushItem fresh copy inner) items list = .ok () longer) :
    ∀ held ∈ longer.items, holds held := by
  induction items generalizing list with
  | nil =>
      injection run with _ same
      rw [← same]
      exact before
  | cons item rest ih =>
      rw [each] at run
      obtain ⟨_, pushed, first, more⟩ := bind_eq_ok.mp run
      obtain ⟨made, filled, push⟩ := pushItem_eq_ok.mp first
      rw [List.forall_mem_cons] at reads
      refine ih reads.2 ?_ more
      intro held inside
      rw [AccessorList.pushBack_items push, List.mem_append, List.mem_singleton] at inside
      cases inside with
      | inl earlier => exact before held earlier
      | inr last =>
          rw [last]
          exact reads.1 made filled

theorem fillList_all {σ : Type} {maxOccurs : Option Nat} {fresh : σ} {copy : σ → σ}
    {inner : Value → Fill Exc σ Unit} {holds : σ → Prop} {items : List Value}
    (reads : ∀ item ∈ items, ∀ made, inner item fresh = .ok () made → holds (copy made))
    {list longer : AccessorList maxOccurs σ}
    (run : fillList fresh copy inner items list = .ok () longer) :
    ∀ held ∈ longer.items, holds held := by
  rw [fillList, bind_ok (set_run _ _)] at run
  refine each_pushItem_all reads ?_ run
  intro held inside
  cases inside

mutual
/-- Strings that were read are UTF-8, and items that were read are declared. -/
theorem Elem.deserialize_shows [CaseTable] : (e : Elem) → {value : Value} → {context : Bytes} →
    {d v : e.Impl} → e.IsFresh d → value.Encoded →
    Elem.deserialize fp context e value d = .ok () v → Elem.Shows Encodable Declared e v
  | .prim t, _, _, _, _, _, encoded, run => by
      simp only [Elem.deserialize, Elem.Shows] at run ⊢
      exact parseValue_encodable encoded (attempt_set_eq_ok.mp run)
  | .enum _ _, _, _, _, _, _, _, run => by
      simp only [Elem.deserialize, Elem.Shows] at run ⊢
      exact parseEnum_declared (attempt_set_eq_ok.mp run)
  | .cls _ body, _, _, _, _, fresh, encoded, run => by
      simp only [Elem.deserialize, Elem.IsFresh, Elem.Shows] at run fresh ⊢
      obtain ⟨_, _, filled⟩ := attempt_bind_eq_ok run
      exact Members.deserializeFields_shows body fresh encoded filled

theorem Members.deserializeFields_shows [CaseTable] : (ms : Members) → {typeName : String} →
    {value : Value} → {d v : ms.Impl} → ms.IsFresh d → value.Encoded →
    Members.deserializeFields fp typeName ms value d = .ok () v →
    Members.Shows Encodable Declared ms v
  | .nil, _, _, _, _, _, _, _ => by simp only [Members.Shows]
  | .base _ body rest, _, _, _, _, fresh, encoded, run => by
      simp only [Members.deserializeFields, Members.IsFresh, Members.Shows] at run fresh ⊢
      obtain ⟨head, tail⟩ := both_eq_ok.mp run
      obtain ⟨_, _, filled⟩ := attempt_bind_eq_ok head
      exact ⟨Members.deserializeFields_shows body fresh.1 encoded filled,
        Members.deserializeFields_shows rest fresh.2 encoded tail⟩
  | .choice variants rest, _, _, d, v, fresh, encoded, run => by
      simp only [Members.deserializeFields, Members.IsFresh, Members.Shows] at run fresh ⊢
      obtain ⟨matched, mid, head, more⟩ := bind_eq_ok.mp run
      obtain ⟨_, _, tail⟩ := attempt_bind_eq_ok more
      obtain ⟨chosen, kept⟩ := onFst_eq_ok.mp head
      obtain ⟨last, unchanged⟩ := onSnd_eq_ok.mp tail
      rw [kept] at last
      rw [unchanged]
      exact ⟨Variants.deserialize_shows variants fresh.2.1 encoded chosen _,
        Members.deserializeFields_shows rest fresh.2.2 encoded last⟩
  | .required _ elem rest, _, _, _, _, fresh, encoded, run => by
      simp only [Members.deserializeFields, Members.IsFresh, Members.Shows] at run fresh ⊢
      obtain ⟨member, found, filled⟩ := attempt_bind_eq_ok run
      obtain ⟨head, tail⟩ := both_eq_ok.mp filled
      exact ⟨Elem.deserialize_shows elem fresh.1 (requireMember_encoded encoded found) head,
        Members.deserializeFields_shows rest fresh.2 encoded tail⟩
  | .optional _ elem rest, _, _, d, v, fresh, encoded, run => by
      simp only [Members.deserializeFields, Members.IsFresh, Members.Shows] at run fresh ⊢
      obtain ⟨member, found, filled⟩ := attempt_bind_eq_ok run
      obtain ⟨head, tail⟩ := both_eq_ok.mp filled
      refine ⟨?_, Members.deserializeFields_shows rest fresh.2.2 encoded tail⟩
      intro present
      cases member with
      | none =>
          injection head with _ same
          rw [← same] at present
          cases present
      | some inner =>
          obtain ⟨made, read, same⟩ := (enableAnd_eq_ok _).mp head
          rw [same]
          exact Elem.deserialize_shows elem fresh.2.1 (optionalMember_encoded encoded found) read
  | .list _ _ elem rest, _, _, _, _, fresh, encoded, run => by
      simp only [Members.deserializeFields, Members.IsFresh, Members.Shows] at run fresh ⊢
      obtain ⟨member, found, more⟩ := attempt_bind_eq_ok run
      obtain ⟨items, array, filled⟩ := attempt_bind_eq_ok more
      obtain ⟨head, tail⟩ := both_eq_ok.mp filled
      have each := requireArray_encoded (requireMember_encoded encoded found) array
      refine ⟨fillList_all ?_ head, Members.deserializeFields_shows rest fresh.2 encoded tail⟩
      intro item inside made read
      exact Elem.Shows.of_agrees elem (elem.copy_agrees elem.fresh made)
        (Elem.deserialize_shows elem elem.fresh_isFresh (each item inside) read)

theorem Variants.deserialize_shows [CaseTable] : (vs : Variants) → {typeName : String} →
    {index : Nat} →
    {value : Value} → {slot slot' : ChoiceSlot vs.Impl} → {matched : Nat} →
    vs.IsFresh slot.store → value.Encoded →
    Variants.deserialize fp typeName vs index value slot = .ok matched slot' →
    ∀ ordinal, Variants.Shows Encodable Declared vs ordinal index slot'.store
  | .nil, _, _, _, _, _, _, _, _, _, _ => by simp only [Variants.Shows]
  | .cons _ elem rest, _, _, _, slot, slot', _, fresh, encoded, run, ordinal => by
      simp only [Variants.deserialize, Variants.IsFresh, Variants.Shows] at run fresh ⊢
      obtain ⟨member, found, more⟩ := attempt_bind_eq_ok run
      obtain ⟨here, mid, first, others⟩ := bind_eq_ok.mp more
      obtain ⟨later, last, second, ended⟩ := bind_eq_ok.mp others
      injection ended with _ same
      obtain ⟨behind, filled, isLast⟩ := onLater_eq_ok.mp second
      rw [← same, isLast]
      have start : mid.store.2 = slot.store.2 ∧ Elem.Shows Encodable Declared elem mid.store.1 := by
        cases member with
        | none =>
            injection first with _ kept
            rw [← kept]
            exact ⟨rfl, Elem.isFresh_shows elem fresh.1⟩
        | some inner =>
            obtain ⟨⟨made, read, isMid⟩, _⟩ := (fillVariant_some_eq_ok _ _).mp first
            rw [isMid]
            exact ⟨rfl, Elem.deserialize_shows elem fresh.1
              (optionalMember_encoded encoded found) read⟩
      have freshRest : rest.IsFresh mid.store.2 := start.1 ▸ fresh.2
      exact ⟨fun _ => start.2, Variants.deserialize_shows rest freshRest encoded filled ordinal⟩
end

end Read

def NumberLasts : (t : CxxType) → t.Value → Prop
  | .float, v => IsFinite v ∧ v ≠ negativeZero
  | .double, v => IsFinite64 v ∧ v ≠ negativeZero64
  | _, _ => True

theorem lasting_iff_encodable (t : CxxType) (v : t.Value) :
    Lasting t v ↔ Encodable t v ∧ NumberLasts t v := by
  cases t <;> simp [Lasting, Encodable, NumberLasts]

variable {fp : Floating} {parse : Bytes → Except Exc Value}

/-- For an object that was read from text only its numbers decide whether it lasts. -/
theorem Elem.read_lasts_iff [CaseTable] (exactly : ParsesExactly fp parse) {e : Elem}
    {text context : Bytes}
    {doc : Value} {d got : e.Impl} (fresh : e.IsFresh d) (parsed : parse text = .ok doc)
    (run : Elem.deserialize fp context e doc d = .ok () got) :
    Elem.Shows Lasting Named e got ↔ Elem.Shows NumberLasts (fun _ _ => True) e got := by
  have encoded := JsonText.parse_encoded ((exactly text doc).mp parsed)
  have shown := Elem.deserialize_shows e fresh encoded run
  constructor
  · intro lasting
    exact lasting.mono (fun t v lasts => ((lasting_iff_encodable t v).mp lasts).2)
      fun _ _ _ => trivial
  · intro numbers
    exact (Elem.Shows.both e shown numbers).mono (fun t v => (lasting_iff_encodable t v).mpr)
      fun _ _ both => .inl both.1

variable {schema : SchemaModel}

/-- The object is written as `json`, and whatever accessor of its class reads that is written as
`json` too. -/
def Settles [CaseTable] (fp : Floating) (parse : Bytes → Except Exc Value) (handlers : JsonRegistry)
    (obj : Accessor schema) (json : Bytes) : Prop :=
  JsonExternalizer.write fp handlers obj [] = .ok json ∧
    ∀ d, ∃ again, JsonExternalizer.read fp parse handlers json { obj with obj := d } =
        (.ok (), again) ∧
      JsonExternalizer.write fp handlers again [] = .ok json

/-- Text that was taken has left UTF-8 strings and declared items, and the object is written as
text that comes back unchanged from then on, unless a number in it is infinite, not a number or a
negative zero. -/
theorem reread_settles_iff [CaseTable] (names : DistinctNames schema) (standard : Standard fp)
    (exactly : ParsesExactly fp parse) {text : Bytes} {acc got : Accessor schema}
    (reads : JsonExternalizer.read fp parse (registerAllJsonHandlers (typeEntries schema.types))
      text acc = (.ok (), got)) :
    Elem.Shows Encodable Declared got.elem got.obj ∧
    ((∃ json, Settles fp parse (registerAllJsonHandlers (typeEntries schema.types)) got json) ↔
      Elem.Shows NumberLasts (fun _ _ => True) got.elem got.obj) := by
  obtain ⟨m, found, classy⟩ := find_of_layout acc.laidOut
  obtain ⟨doc, filled, parsed, run, isGot⟩ :=
    (JsonExternalizer.read_eq_ok fp acc found classy).mp reads
  subst isGot
  have keyed := keyed_layout names acc.laidOut
  have written : ∀ v : acc.elem.Impl,
      JsonExternalizer.write fp (registerAllJsonHandlers (typeEntries schema.types))
        { acc with obj := v } [] = .ok (Elem.serialize fp acc.elem v []) := fun v =>
    JsonExternalizer.write_run fp { acc with obj := v } found classy []
  have encoded := JsonText.parse_encoded ((exactly text doc).mp parsed)
  refine ⟨Elem.deserialize_shows acc.elem acc.elem.fresh_isFresh encoded run, ?_⟩
  rw [← Elem.read_lasts_iff exactly acc.elem.fresh_isFresh parsed run,
    ← Elem.rewritten_alike_iff standard exactly keyed]
  constructor
  · rintro ⟨json, isJson, back⟩
    rw [written filled] at isJson
    obtain ⟨again, reread, rewritten⟩ := back filled
    rw [← Except.ok.inj isJson] at reread rewritten
    obtain ⟨doc', next, parsed', run', isAgain⟩ :=
      (JsonExternalizer.read_eq_ok fp { acc with obj := filled } found classy).mp reread
    rw [isAgain] at rewritten
    exact ⟨doc', next, parsed', run', Except.ok.inj ((written next).symm.trans rewritten)⟩
  · rintro ⟨doc', next, parsed', run', same⟩
    refine ⟨_, written filled, ?_⟩
    intro d
    refine ⟨{ acc with obj := next }, ?_, (written next).trans (congrArg Except.ok same)⟩
    exact (JsonExternalizer.read_eq_ok fp { acc with obj := d } found classy).mpr
      ⟨doc', next, parsed', run', rfl⟩

section Sample

attribute [local instance] latinCase

theorem reread_settles_track : ∃ acc got : Accessor sampleSchema,
    JsonExternalizer.read plainFloating (exactParse plainFloating)
      (registerAllJsonHandlers (typeEntries sampleSchema.types))
      (Elem.serialize plainFloating trackLayout speedTrack []) acc = (.ok (), got) ∧
    ∃ json, Settles plainFloating (exactParse plainFloating)
      (registerAllJsonHandlers (typeEntries sampleSchema.types)) got json := by
  have keyed := keyed_layout sampleSchema_distinctNames layout_sampleSchema
  have exactly := exactParse_exactly plainFloating
  have again := fun v => Elem.rewritten_alike_iff plainFloating_standard exactly keyed v
  obtain ⟨doc, got, parsed, run, same⟩ := (again speedTrack).mpr speedTrack_lasting
  have reads := (JsonExternalizer.read_eq_ok plainFloating
    (⟨"TrackMDT", trackLayout, layout_sampleSchema, trackLayout.fresh⟩ : Accessor sampleSchema)
    rfl rfl).mpr ⟨doc, got, parsed, run, rfl⟩
  have lasts := (again got).mp ⟨doc, got, by rw [same]; exact parsed, run, rfl⟩
  exact ⟨_, _, reads,
    (reread_settles_iff sampleSchema_distinctNames plainFloating_standard exactly reads).2.mpr
      ((Elem.read_lasts_iff exactly trackLayout.fresh_isFresh parsed run).mp lasts)⟩

end Sample

end Arcal.Json
