import Arcal.Json.Shown

/-! What reading the tree of an object does to any destination. Numbers come back as the C
library's conversions leave them, enum items as the first item of their name. -/

namespace Arcal.Json

open Schema Focus
open InPlace (bind_ok bind_eq_ok pure_run)
open JsonText (Value)

variable (fp : Floating)

theorem utf8_injective {left right : String} (same : utf8 left = utf8 right) : left = right :=
  String.toList_inj.mp (Utf8.encode_injective same)

theorem find_append (left right : List (Bytes × Value)) (name : Bytes) :
    find (left ++ right) name = (find right name).or (find left name) := by
  rw [find, find, find, List.reverse_append, List.find?_append, Option.map_or]

theorem find_eq_none {members : List (Bytes × Value)} {name : Bytes}
    (absent : ∀ member ∈ members, member.1 ≠ name) : find members name = none := by
  rw [find, Option.map_eq_none_iff, List.find?_eq_none]
  intro member inside
  simpa using absent member (List.mem_reverse.mp inside)

/-- As far as the names of `keys` go, the object `all` holds just the members `pairs`. -/
def Holds (all : List (Bytes × Value)) (keys : List String) (pairs : List (Bytes × Value)) :
    Prop :=
  ∀ name ∈ keys, find all (utf8 name) = find pairs (utf8 name)

def Within (keys : List String) (pairs : List (Bytes × Value)) : Prop :=
  ∀ member ∈ pairs, ∃ name ∈ keys, member.1 = utf8 name

section Holding

variable {all left right : List (Bytes × Value)} {leftKeys rightKeys : List String}

theorem find_none_of_within (inside : Within leftKeys left) {name : String}
    (other : name ∉ leftKeys) : find left (utf8 name) = none := by
  apply find_eq_none
  intro member present same
  rcases inside member present with ⟨key, known, keyEq⟩
  rw [keyEq] at same
  exact other (utf8_injective same ▸ known)

theorem Holds.split (holds : Holds all (leftKeys ++ rightKeys) (left ++ right))
    (distinct : (leftKeys ++ rightKeys).Nodup) (insideLeft : Within leftKeys left)
    (insideRight : Within rightKeys right) :
    Holds all leftKeys left ∧ Holds all rightKeys right := by
  rw [List.nodup_append] at distinct
  constructor
  · intro name known
    have none' := find_none_of_within insideRight fun other =>
      distinct.2.2 name known name other rfl
    rw [holds name (List.mem_append_left _ known), find_append, none', Option.none_or]
  · intro name known
    have none' := find_none_of_within insideLeft fun other =>
      distinct.2.2 name other name known rfl
    rw [holds name (List.mem_append_right _ known), find_append, none', Option.or_none]

theorem Holds.cons {own : String} (value : Option Value) {keys : List String}
    {pairs : List (Bytes × Value)}
    (holds : Holds all (own :: keys) ((value.map fun v => (utf8 own, v)).toList ++ pairs))
    (distinct : (own :: keys).Nodup) (inside : Within keys pairs) :
    find all (utf8 own) = value ∧ Holds all keys pairs := by
  have here : Within [own] ((value.map fun v => (utf8 own, v)).toList) := by
    intro member present
    rw [Option.mem_toList, Option.map_eq_some_iff] at present
    rcases present with ⟨v, _, same⟩
    exact ⟨own, by simp, by rw [← same]⟩
  have apart : ([own] ++ keys).Nodup := distinct
  have both : Holds all ([own] ++ keys) ((value.map fun v => (utf8 own, v)).toList ++ pairs) :=
    holds
  have halves := both.split apart here inside
  refine ⟨?_, halves.2⟩
  rw [halves.1 own (by simp)]
  cases value with
  | none => rfl
  | some v => simp [find]

end Holding

def rereadValue : (t : CxxType) → t.Value → t.Value
  | .float, v => ((stored fp (fp.printFloat v)).map fp.toFloat).getD v
  | .double, v => ((stored fp (fp.printDouble v)).map fp.toDouble).getD v
  | _, v => v

theorem rereadValue_exact {t : CxxType} (exact : Exact t) (v : t.Value) :
    rereadValue fp t v = v := by
  cases t with
  | float => exact absurd rfl exact.1
  | double => exact absurd rfl exact.2
  | _ => rfl

mutual
def Elem.readBack : (e : Elem) → (v d : e.Impl) → e.Impl
  | .prim t, v, _ => rereadValue fp t v
  | .enum _ enumValues, v, _ => namesake enumValues v
  | .cls _ body, v, d => Members.readBack body v d

def Members.readBack : (ms : Members) → (v d : ms.Impl) → ms.Impl
  | .nil, _, _ => ()
  | .base _ body rest, v, d => (Members.readBack body v.1 d.1, Members.readBack rest v.2 d.2)
  | .choice variants rest, v, d =>
      (Variants.readBack variants v.1.ordinal.toNat 1 v.1.store d.1,
        Members.readBack rest v.2 d.2)
  | .required _ elem rest, v, d => (Elem.readBack elem v.1 d.1, Members.readBack rest v.2 d.2)
  | .optional _ elem rest, v, d =>
      (if v.1.has then ⟨true, Elem.readBack elem v.1.value d.1.value⟩ else ⟨false, d.1.value⟩,
        Members.readBack rest v.2 d.2)
  | .list _ _ elem rest, v, d =>
      (v.1.map fun item => elem.copy elem.fresh (Elem.readBack elem item elem.fresh),
        Members.readBack rest v.2 d.2)

def Variants.readBack : (vs : Variants) → (ordinal index : Nat) → (v : vs.Impl) →
    ChoiceSlot vs.Impl → ChoiceSlot vs.Impl
  | .nil, _, _, _, slot => slot
  | .cons _ elem rest, ordinal, index, v, slot =>
      if ordinal = index then
        ⟨UInt32.ofNat index, (Elem.readBack elem v.1 slot.store.1, slot.store.2)⟩
      else
        let later := Variants.readBack rest ordinal (index + 1) v.2 ⟨slot.ordinal, slot.store.2⟩
        ⟨later.ordinal, (slot.store.1, later.store)⟩
end

theorem Variants.pairs_past (vs : Variants) {ordinal index : Nat} (past : ordinal < index)
    (v : vs.Impl) : Variants.pairs fp vs ordinal index v = [] := by
  cases vs with
  | nil => simp only [Variants.pairs]
  | cons _ elem rest =>
      simp only [Variants.pairs, if_neg (by omega : ordinal ≠ index), List.nil_append]
      exact Variants.pairs_past rest (by omega) v.2

theorem Variants.readBack_past (vs : Variants) {ordinal index : Nat} (past : ordinal < index)
    (v : vs.Impl) (slot : ChoiceSlot vs.Impl) :
    Variants.readBack fp vs ordinal index v slot = slot := by
  cases vs with
  | nil => simp only [Variants.readBack]
  | cons _ elem rest =>
      simp only [Variants.readBack, if_neg (by omega : ordinal ≠ index)]
      rw [Variants.readBack_past rest (by omega) v.2]

theorem Variants.shows_past (leaf : (t : CxxType) → t.Value → Prop)
    (item : List String → UInt32 → Prop) (vs : Variants) {ordinal index : Nat}
    (past : ordinal < index) (v : vs.Impl) : Variants.Shows leaf item vs ordinal index v := by
  cases vs with
  | nil => simp only [Variants.Shows]
  | cons _ elem rest =>
      simp only [Variants.Shows]
      exact ⟨fun chosen => absurd chosen (by omega),
        Variants.shows_past leaf item rest (by omega) v.2⟩

section Runs

variable {σ τ : Type}

theorem chooseAnd_eq_ok (generated : Bool) (ordinal : UInt32) {inner : Fill Exc σ Unit}
    {slot slot' : ChoiceSlot (σ × τ)} :
    chooseAnd generated ordinal inner slot = .ok () slot' ↔
      ∃ filled, inner slot.store.1 = .ok () filled ∧ slot' = ⟨ordinal, (filled, slot.store.2)⟩ :=
  markAnd_eq_ok (fun _ => rfl) (fun _ _ => rfl)

theorem enableAnd_eq_ok (generated : Bool) {inner : Fill Exc σ Unit} {slot slot' : OptSlot σ} :
    enableAnd generated inner slot = .ok () slot' ↔
      ∃ filled, inner slot.value = .ok () filled ∧ slot' = ⟨true, filled⟩ :=
  markAnd_eq_ok (fun _ => rfl) (fun _ _ => rfl)

theorem pushItem_eq_ok {maxOccurs : Option Nat} {fresh : σ} {copy : σ → σ}
    {inner : Value → Fill Exc σ Unit} {value : Value} {list longer : AccessorList maxOccurs σ} :
    pushItem fresh copy inner value list = .ok () longer ↔
      ∃ made, inner value fresh = .ok () made ∧ list.pushBack (copy made) = .ok longer := by
  rw [pushItem, bind_eq_ok]
  constructor
  · rintro ⟨made, same, first, pushed⟩
    obtain ⟨filled, rfl⟩ := onNew_eq_ok.mp first
    exact ⟨made, filled, modifyOrThrow_eq_ok.mp pushed⟩
  · rintro ⟨made, filled, pushed⟩
    exact ⟨made, list, onNew_eq_ok.mpr ⟨filled, rfl⟩, modifyOrThrow_eq_ok.mpr pushed⟩

theorem each_pushItem_eq_ok {maxOccurs : Option Nat} {fresh : σ} (copy result : σ → σ)
    {good : σ → Prop} {inner : Value → Fill Exc σ Unit} (toValue : σ → Value) (items : List σ)
    (reads : ∀ item ∈ items, ∀ made,
      inner (toValue item) fresh = .ok () made ↔ good item ∧ made = result item)
    (list longer : AccessorList maxOccurs σ)
    (room : ∀ limit ∈ maxOccurs, list.items.length + items.length ≤ limit) :
    each (pushItem fresh copy inner) (items.map toValue) list = .ok () longer ↔
      (∀ item ∈ items, good item) ∧
        longer.items = list.items ++ items.map fun item => copy (result item) := by
  induction items generalizing list with
  | nil =>
      have stays : each (pushItem fresh copy inner) ([].map toValue) list = .ok () longer ↔
          list = longer := by
        change EStateM.Result.ok () list = EStateM.Result.ok () longer ↔ _
        simp
      rw [stays, List.map_nil, List.append_nil]
      constructor
      · rintro rfl
        exact ⟨by simp, rfl⟩
      · intro same
        exact (AccessorList.ext same.2).symm
  | cons item rest ih =>
      obtain ⟨pushed, push, pushedItems⟩ := AccessorList.pushBack_room list
        (copy (result item)) (by
          intro limit bound
          have space := room limit bound
          rw [List.length_cons] at space
          omega)
      have later := ih (fun other member => reads other (List.mem_cons_of_mem _ member)) pushed (by
        intro limit bound
        have space := room limit bound
        rw [pushedItems, List.length_append, List.length_singleton]
        rw [List.length_cons] at space
        omega)
      have first : ∀ next, pushItem fresh copy inner (toValue item) list = .ok () next ↔
          good item ∧ next = pushed := by
        intro next
        rw [pushItem_eq_ok]
        constructor
        · rintro ⟨made, filled, grown⟩
          obtain ⟨fine, rfl⟩ := (reads item (by simp) made).mp filled
          rw [push] at grown
          exact ⟨fine, (Except.ok.inj grown).symm⟩
        · rintro ⟨fine, rfl⟩
          exact ⟨result item, (reads item (by simp) _).mpr ⟨fine, rfl⟩, push⟩
      rw [List.map_cons, each, bind_eq_ok, List.forall_mem_cons, List.map_cons]
      have shape : pushed.items ++ rest.map (fun item => copy (result item)) =
          list.items ++ copy (result item) :: rest.map fun item => copy (result item) := by
        rw [pushedItems, List.append_assoc, List.singleton_append]
      rw [shape] at later
      constructor
      · rintro ⟨_, next, head, tail⟩
        obtain ⟨fine, rfl⟩ := (first next).mp head
        obtain ⟨others, same⟩ := later.mp tail
        exact ⟨⟨fine, others⟩, same⟩
      · rintro ⟨⟨fine, others⟩, same⟩
        exact ⟨(), pushed, (first pushed).mpr ⟨fine, rfl⟩, later.mpr ⟨others, same⟩⟩

theorem fillList_eq_ok {maxOccurs : Option Nat} {fresh : σ} (copy result : σ → σ)
    {good : σ → Prop} {inner : Value → Fill Exc σ Unit} (toValue : σ → Value)
    (v d got : AccessorList maxOccurs σ)
    (reads : ∀ item ∈ v.items, ∀ made,
      inner (toValue item) fresh = .ok () made ↔ good item ∧ made = result item) :
    fillList fresh copy inner (v.items.map toValue) d = .ok () got ↔
      (∀ item ∈ v.items, good item) ∧ got = v.map fun item => copy (result item) := by
  have loop := each_pushItem_eq_ok copy result toValue v.items reads
    (AccessorList.clear : AccessorList maxOccurs σ) got (by
      intro limit bound
      have room := v.bounded limit bound
      simpa [AccessorList.clear] using room)
  rw [fillList, bind_ok (set_run _ _), loop]
  have whole : got.items = (AccessorList.clear : AccessorList maxOccurs σ).items ++
      v.items.map (fun item => copy (result item)) ↔
        got = v.map fun item => copy (result item) := by
    constructor
    · intro same
      exact AccessorList.ext same
    · intro same
      rw [same]
      rfl
  rw [whole]

theorem fillVariant_some_eq_ok (generated : Bool) (ordinal : UInt32) {value : Value}
    {inner : Value → Fill Exc σ Unit} {slot slot' : ChoiceSlot (σ × τ)} {matched : Nat} :
    fillVariant generated ordinal (some value) inner slot = .ok matched slot' ↔
      (∃ filled, inner value slot.store.1 = .ok () filled ∧
        slot' = ⟨ordinal, (filled, slot.store.2)⟩) ∧ matched = 1 := by
  rw [fillVariant, bind_eq_ok]
  constructor
  · rintro ⟨_, chosen, run, last⟩
    rw [pure_run] at last
    injection last with one same
    rw [same] at run
    exact ⟨(chooseAnd_eq_ok generated ordinal).mp run, one.symm⟩
  · rintro ⟨run, rfl⟩
    exact ⟨(), slot', (chooseAnd_eq_ok generated ordinal).mpr run, pure_run 1 slot'⟩

theorem onLater_eq_ok {α : Type} {inner : Fill Exc (ChoiceSlot τ) α}
    {slot slot' : ChoiceSlot (σ × τ)} {a : α} :
    onLater inner slot = .ok a slot' ↔
      ∃ later, inner ⟨slot.ordinal, slot.store.2⟩ = .ok a later ∧
        slot' = ⟨later.ordinal, (slot.store.1, later.store)⟩ := within_eq_ok

end Runs

theorem parseEnum_name_iff [CaseTable] {name : String} {enumValues : List String} {v got : UInt32} :
    parseEnum name enumValues (.string (toName enumValues v)) = .ok got ↔
      Named enumValues v ∧ got = namesake enumValues v := by
  rw [← fromName_toName_iff name]
  simp only [parseEnum]
  cases fromName name enumValues (toName enumValues v) with
  | ok item => simp
  | error e => simp

theorem requireMember_found {all : List (Bytes × Value)} {name : Bytes} {value : Value}
    (context : Bytes) (found : find all name = some value) :
    requireMember (.object all) name context = .ok value := by
  simp only [requireMember, requireObject, bind, Except.bind, found]

theorem optionalMember_found {all : List (Bytes × Value)} {name : Bytes} {member : Option Value}
    (context : Bytes) (found : find all name = member) :
    optionalMember (.object all) name context = .ok member := by
  simp only [optionalMember, requireObject, bind, Except.bind, found, pure, Except.pure]

theorem Variants.pairs_length (vs : Variants) (ordinal index : Nat) (v : vs.Impl) :
    (Variants.pairs fp vs ordinal index v).length ≤ 1 := by
  cases vs with
  | nil => simp [Variants.pairs]
  | cons _ elem rest =>
      have later := Variants.pairs_length rest ordinal (index + 1) v.2
      simp only [Variants.pairs]
      by_cases here : ordinal = index
      · rw [Variants.pairs_past fp rest (by omega) v.2]
        simp [here]
      · simpa [here] using later

section Reading

def Reads (leaf : (t : CxxType) → t.Value → Prop) : Prop :=
  ∀ t v context, leaf t v →
    parseValue fp t (Json.tree fp t v) context = .ok (rereadValue fp t v)

variable {fp} {leaf : (t : CxxType) → t.Value → Prop}

mutual
/-- The tree of an object is read exactly when every enum item it shows goes by a name of its
table, and the destination is then overwritten with what the object shows. -/
theorem Elem.deserialize_tree_iff [CaseTable] (reads : Reads fp leaf) : (e : Elem) → Elem.Keyed e →
    (v : e.Impl) →
    Elem.Shows leaf (fun _ _ => True) e v → (d got : e.Impl) → (context : Bytes) →
    (Elem.deserialize fp context e (Elem.tree fp e v) d = .ok () got ↔
      Elem.Shows leaf Named e v ∧ got = Elem.readBack fp e v d)
  | .prim t, _, v, shown, d, got, context => by
      simp only [Elem.Shows, Elem.deserialize, Elem.tree, Elem.readBack] at shown ⊢
      rw [attempt_set_eq_ok, reads t v context shown]
      simp [shown, eq_comm]
  | .enum name enumValues, _, v, _, d, got, _ => by
      simp only [Elem.Shows, Elem.deserialize, Elem.tree, Elem.readBack]
      rw [attempt_set_eq_ok, parseEnum_name_iff]
  | .cls name body, keyed, v, shown, d, got, _ => by
      simp only [Elem.Keyed, Elem.Shows, Elem.deserialize, Elem.tree, Elem.readBack]
        at keyed shown ⊢
      have object : requireObject (.object (Members.pairs fp body v)) (utf8 name) =
          .ok (Members.pairs fp body v) := rfl
      rw [bind_ok (attempt_ok object d)]
      exact Members.deserializeFields_pairs_iff reads body keyed.1 keyed.2 v shown d got name
        (Members.pairs fp body v) fun _ _ => rfl

theorem Members.deserializeFields_pairs_iff [CaseTable] (reads : Reads fp leaf) : (ms : Members) →
    (Members.keys ms).Nodup → Members.Keyed ms → (v : ms.Impl) → Members.Shows leaf (fun _ _ => True) ms v →
    (d got : ms.Impl) → (typeName : String) → (all : List (Bytes × Value)) →
    Holds all (Members.keys ms) (Members.pairs fp ms v) →
    (Members.deserializeFields fp typeName ms (.object all) d = .ok () got ↔
      Members.Shows leaf Named ms v ∧ got = Members.readBack fp ms v d)
  | .nil, _, _, _, _, _, _, _, _, _ => by
      simp only [Members.deserializeFields, Members.Shows, pure_run, true_and]
  | .base name body rest, distinct, keyed, v, shown, d, got, typeName, all, holds => by
      simp only [Members.keys, Members.Keyed, Members.Shows, Members.pairs,
        Members.deserializeFields, Members.readBack] at distinct keyed shown holds ⊢
      have halves := holds.split distinct (Members.pairs_keys fp body v.1)
        (Members.pairs_keys fp rest v.2)
      have nodup := List.nodup_append.mp distinct
      have object : requireObject (.object all) (utf8 name) = .ok all := rfl
      have first := Members.deserializeFields_pairs_iff reads body nodup.1 keyed.1 v.1 shown.1 d.1 got.1
        name all halves.1
      have later := Members.deserializeFields_pairs_iff reads rest nodup.2.1 keyed.2 v.2 shown.2 d.2
        got.2 typeName all halves.2
      rw [both_eq_ok, bind_ok (attempt_ok object d.1), first, later, Prod.ext_iff]
      exact and_and_and_comm
  | .choice variants rest, distinct, keyed, v, shown, d, got, typeName, all, holds => by
      simp only [Members.keys, Members.Keyed, Members.Shows, Members.pairs,
        Members.deserializeFields, Members.readBack] at distinct keyed shown holds ⊢
      have halves := holds.split distinct (Variants.pairs_keys fp variants _ 1 v.1.store)
        (Members.pairs_keys fp rest v.2)
      have nodup := List.nodup_append.mp distinct
      have first := Variants.deserialize_pairs_iff reads variants nodup.1 keyed.1 v.1.ordinal.toNat 1
        v.1.store shown.1 d.1
      have later := Members.deserializeFields_pairs_iff reads rest nodup.2.1 keyed.2 v.2 shown.2 d.2
        got.2 typeName all halves.2
      have checked : checkMatched typeName
          (Variants.pairs fp variants v.1.ordinal.toNat 1 v.1.store).length = .ok () :=
        if_neg (Nat.not_lt.mpr (Variants.pairs_length fp variants _ 1 v.1.store))
      rw [bind_eq_ok]
      constructor
      · rintro ⟨matched, mid, head, tail⟩
        obtain ⟨chosen, kept⟩ := onFst_eq_ok.mp head
        obtain ⟨named, same, rfl⟩ := (first mid.1 matched typeName all halves.1).mp chosen
        rw [bind_ok (attempt_ok checked mid)] at tail
        obtain ⟨last, unchanged⟩ := onSnd_eq_ok.mp tail
        rw [kept] at last
        obtain ⟨others, rest⟩ := later.mp last
        exact ⟨⟨named, others⟩, Prod.ext (unchanged.trans same) rest⟩
      · rintro ⟨⟨named, others⟩, rfl⟩
        have chosen := (first _ _ typeName all halves.1).mpr ⟨named, rfl, rfl⟩
        have last := later.mpr ⟨others, rfl⟩
        refine ⟨_, (Variants.readBack fp variants v.1.ordinal.toNat 1 v.1.store d.1, d.2),
          onFst_eq_ok.mpr ⟨chosen, rfl⟩, ?_⟩
        rw [bind_ok (attempt_ok checked _)]
        exact onSnd_eq_ok.mpr ⟨last, rfl⟩
  | .required name elem rest, distinct, keyed, v, shown, d, got, typeName, all, holds => by
      simp only [Members.keys, Members.Keyed, Members.Shows, Members.pairs,
        Members.deserializeFields, Members.readBack] at distinct keyed shown holds ⊢
      have parts := Holds.cons (some (Elem.tree fp elem v.1)) holds distinct
        (Members.pairs_keys fp rest v.2)
      have nodup := (List.nodup_cons.mp distinct).2
      have first := Elem.deserialize_tree_iff reads elem keyed.2.1 v.1 shown.1 d.1 got.1
        (fieldContext typeName name)
      have later := Members.deserializeFields_pairs_iff reads rest nodup keyed.2.2 v.2 shown.2 d.2
        got.2 typeName all parts.2
      rw [bind_ok (attempt_ok (requireMember_found _ parts.1) d), both_eq_ok, first, later,
        Prod.ext_iff]
      exact and_and_and_comm
  | .optional name elem rest, distinct, keyed, v, shown, d, got, typeName, all, holds => by
      simp only [Members.keys, Members.Keyed, Members.Shows, Members.pairs,
        Members.deserializeFields, Members.readBack] at distinct keyed shown holds ⊢
      have nodup := (List.nodup_cons.mp distinct).2
      cases present : v.1.has with
      | true =>
          rw [present] at holds
          have parts := Holds.cons (some (Elem.tree fp elem v.1.value)) holds distinct
            (Members.pairs_keys fp rest v.2)
          have later := Members.deserializeFields_pairs_iff reads rest nodup keyed.2.2 v.2 shown.2 d.2
            got.2 typeName all parts.2
          have inner := fun filled => Elem.deserialize_tree_iff reads elem keyed.2.1 v.1.value
            (shown.1 present) d.1.value filled (fieldContext typeName name)
          rw [bind_ok (attempt_ok (optionalMember_found _ parts.1) d), both_eq_ok, later,
            Prod.ext_iff, fillOptional, enableAnd_eq_ok]
          simp only [inner, if_true, true_implies]
          constructor
          · rintro ⟨⟨filled, ⟨named, rfl⟩, same⟩, others, last⟩
            exact ⟨⟨named, others⟩, same, last⟩
          · rintro ⟨⟨named, others⟩, same, last⟩
            exact ⟨⟨_, ⟨named, rfl⟩, same⟩, others, last⟩
      | false =>
          rw [present] at holds
          have parts := Holds.cons none holds distinct (Members.pairs_keys fp rest v.2)
          have later := Members.deserializeFields_pairs_iff reads rest nodup keyed.2.2 v.2 shown.2 d.2
            got.2 typeName all parts.2
          rw [bind_ok (attempt_ok (optionalMember_found _ parts.1) d), both_eq_ok, later,
            Prod.ext_iff, fillOptional, modify_run]
          simp only [EStateM.Result.ok.injEq, true_and, Bool.false_eq_true, if_false,
            false_implies]
          constructor
          · rintro ⟨same, others, last⟩
            exact ⟨others, same.symm, last⟩
          · rintro ⟨others, same, last⟩
            exact ⟨same.symm, others, last⟩
  | .list name _ elem rest, distinct, keyed, v, shown, d, got, typeName, all, holds => by
      simp only [Members.keys, Members.Keyed, Members.Shows, Members.pairs,
        Members.deserializeFields, Members.readBack] at distinct keyed shown holds ⊢
      have parts := Holds.cons
        (some (.array (v.1.items.map fun item => Elem.tree fp elem item))) holds distinct
        (Members.pairs_keys fp rest v.2)
      have nodup := (List.nodup_cons.mp distinct).2
      have array : requireArray (.array (v.1.items.map fun item => Elem.tree fp elem item))
          (fieldContext typeName name) = .ok (v.1.items.map fun item => Elem.tree fp elem item) :=
        rfl
      have first := fillList_eq_ok (elem.copy elem.fresh)
        (fun item => Elem.readBack fp elem item elem.fresh) (fun item => Elem.tree fp elem item)
        v.1 d.1 got.1 fun item member made => Elem.deserialize_tree_iff reads elem keyed.2.1 item
          (shown.1 item member) elem.fresh made (fieldContext typeName name)
      have later := Members.deserializeFields_pairs_iff reads rest nodup keyed.2.2 v.2 shown.2 d.2
        got.2 typeName all parts.2
      rw [bind_ok (attempt_ok (requireMember_found _ parts.1) d), bind_ok (attempt_ok array d),
        both_eq_ok, first, later, Prod.ext_iff]
      exact and_and_and_comm

theorem Variants.deserialize_pairs_iff [CaseTable] (reads : Reads fp leaf) : (vs : Variants) →
    (Variants.keys vs).Nodup → Variants.Keyed vs → (ordinal index : Nat) → (v : vs.Impl) →
    Variants.Shows leaf (fun _ _ => True) vs ordinal index v → (slot slot' : ChoiceSlot vs.Impl) →
    (matched : Nat) → (typeName : String) → (all : List (Bytes × Value)) →
    Holds all (Variants.keys vs) (Variants.pairs fp vs ordinal index v) →
    (Variants.deserialize fp typeName vs index (.object all) slot = .ok matched slot' ↔
      Variants.Shows leaf Named vs ordinal index v ∧
        slot' = Variants.readBack fp vs ordinal index v slot ∧
        matched = (Variants.pairs fp vs ordinal index v).length)
  | .nil, _, _, _, _, _, _, slot, slot', matched, _, _, _ => by
      simp only [Variants.deserialize, Variants.readBack, Variants.Shows, Variants.pairs, pure_run]
      simp [eq_comm, and_comm]
  | .cons name elem rest, distinct, keyed, ordinal, index, v, shown, slot, slot', matched,
      typeName, all, holds => by
      simp only [Variants.keys, Variants.Keyed, Variants.Shows, Variants.pairs,
        Variants.deserialize, Variants.readBack] at distinct keyed shown holds ⊢
      have nodup := (List.nodup_cons.mp distinct).2
      have inside := Variants.pairs_keys fp rest ordinal (index + 1) v.2
      by_cases here : ordinal = index
      · simp only [if_pos here] at holds ⊢
        have parts := Holds.cons (some (Elem.tree fp elem v.1)) holds distinct inside
        have inner := fun filled => Elem.deserialize_tree_iff reads elem keyed.2.1 v.1 (shown.1 here)
          slot.store.1 filled (fieldContext typeName name)
        have later := fun old new count => Variants.deserialize_pairs_iff reads rest nodup keyed.2.2
          ordinal (index + 1) v.2 shown.2 old new count typeName all parts.2
        have behind : ordinal < index + 1 := by omega
        simp only [Variants.readBack_past fp rest behind, Variants.pairs_past fp rest behind,
          List.length_nil] at later
        simp only [Variants.pairs_past fp rest behind, List.append_nil, List.length_singleton]
        rw [bind_ok (attempt_ok (optionalMember_found _ parts.1) slot), bind_eq_ok]
        constructor
        · rintro ⟨one, chosen, head, tail⟩
          obtain ⟨⟨filled, read, rfl⟩, rfl⟩ := (fillVariant_some_eq_ok _ _).mp head
          obtain ⟨named, rfl⟩ := (inner filled).mp read
          obtain ⟨more, last, tail, stop⟩ := bind_eq_ok.mp tail
          obtain ⟨left, run, rfl⟩ := onLater_eq_ok.mp tail
          obtain ⟨others, rfl, rfl⟩ := (later _ _ _).mp run
          rw [pure_run] at stop
          injection stop with count same
          exact ⟨⟨fun _ => named, others⟩, same.symm, count.symm⟩
        · rintro ⟨⟨named, others⟩, rfl, rfl⟩
          have read := (inner _).mpr ⟨named here, rfl⟩
          have run := (later ⟨UInt32.ofNat index, slot.store.2⟩ _ 0).mpr ⟨others, rfl, rfl⟩
          refine ⟨1, _, (fillVariant_some_eq_ok _ _).mpr ⟨⟨_, read, rfl⟩, rfl⟩, ?_⟩
          rw [bind_ok (onLater_eq_ok.mpr ⟨_, run, rfl⟩), pure_run]
      · simp only [if_neg here, List.nil_append] at holds ⊢
        have parts := Holds.cons none holds distinct inside
        have later := fun new count => Variants.deserialize_pairs_iff reads rest nodup keyed.2.2
          ordinal (index + 1) v.2 shown.2 ⟨slot.ordinal, slot.store.2⟩ new count typeName all
          parts.2
        have skipped : fillVariant (Cdr.Elem.isGenerated elem) (UInt32.ofNat index) none
            (fun inner => Elem.deserialize fp (fieldContext typeName name) elem inner) slot =
              .ok 0 slot := rfl
        rw [bind_ok (attempt_ok (optionalMember_found _ parts.1) slot), bind_ok skipped,
          bind_eq_ok]
        constructor
        · rintro ⟨more, last, tail, stop⟩
          obtain ⟨left, run, rfl⟩ := onLater_eq_ok.mp tail
          obtain ⟨others, rfl, rfl⟩ := (later _ _).mp run
          rw [pure_run] at stop
          injection stop with count same
          exact ⟨⟨fun chosen => absurd chosen here, others⟩, same.symm,
            by rw [← count, Nat.zero_add]⟩
        · rintro ⟨⟨_, others⟩, rfl, rfl⟩
          have run := (later _ _).mpr ⟨others, rfl, rfl⟩
          exact ⟨_, _, onLater_eq_ok.mpr ⟨_, run, rfl⟩, by rw [pure_run, Nat.zero_add]⟩
end

end Reading

end Arcal.Json
