import Arcal.Cdr.Codec

/-! What decoding an encoded object does to any destination, and when the
destination then shows what the source showed. -/

namespace Arcal.Cdr

open Schema InPlace

mutual
/-- The 32-bit lengths and counts of the format, for everything that gets encoded. -/
def Elem.InLimits : (e : Elem) → e.Impl → Prop
  | .prim t, v => Fits t v
  | .enum _ _, _ => True
  | .cls _ body, v => Members.InLimits body v

def Members.InLimits : (ms : Members) → ms.Impl → Prop
  | .nil, _ => True
  | .base _ body rest, v => Members.InLimits body v.1 ∧ Members.InLimits rest v.2
  | .choice variants rest, v =>
      Variants.InLimits variants v.1.ordinal.toNat 1 v.1.store ∧ Members.InLimits rest v.2
  | .required _ elem rest, v => Elem.InLimits elem v.1 ∧ Members.InLimits rest v.2
  | .optional _ elem rest, v =>
      (v.1.has = true → Elem.InLimits elem v.1.value) ∧ Members.InLimits rest v.2
  | .list _ _ elem rest, v =>
      (v.1.items.length < 2 ^ 32 ∧ ∀ item ∈ v.1.items, Elem.InLimits elem item) ∧
        Members.InLimits rest v.2

def Variants.InLimits : (vs : Variants) → (ordinal index : Nat) → vs.Impl → Prop
  | .nil, _, _, _ => True
  | .cons _ elem rest, ordinal, index, v =>
      (ordinal = index → Elem.InLimits elem v.1) ∧
        Variants.InLimits rest ordinal (index + 1) v.2
end

mutual
/-- The destination after decoding the bytes of `v` into `d`. -/
def Elem.overwrite : (e : Elem) → (v d : e.Impl) → e.Impl
  | .prim _, v, _ => v
  | .enum _ _, v, _ => v
  | .cls _ body, v, d => Members.overwrite body v d

def Members.overwrite : (ms : Members) → (v d : ms.Impl) → ms.Impl
  | .nil, _, _ => ()
  | .base _ body rest, v, d => (Members.overwrite body v.1 d.1, Members.overwrite rest v.2 d.2)
  | .choice variants rest, v, d =>
      (if (Variants.selected variants v.1.ordinal.toNat 1).isSome then
          ⟨v.1.ordinal, Variants.overwrite variants v.1.ordinal.toNat 1 v.1.store d.1.store⟩
        else d.1,
        Members.overwrite rest v.2 d.2)
  | .required _ elem rest, v, d => (Elem.overwrite elem v.1 d.1, Members.overwrite rest v.2 d.2)
  | .optional _ elem rest, v, d =>
      (if v.1.has then ⟨true, Elem.overwrite elem v.1.value d.1.value⟩ else d.1,
        Members.overwrite rest v.2 d.2)
  | .list _ _ elem rest, v, d =>
      (v.1.map fun item => elem.copy elem.fresh (Elem.overwrite elem item elem.fresh),
        Members.overwrite rest v.2 d.2)

def Variants.overwrite : (vs : Variants) → (ordinal index : Nat) → (v d : vs.Impl) → vs.Impl
  | .nil, _, _, _, _ => ()
  | .cons _ elem rest, ordinal, index, v, d =>
      (if ordinal = index then Elem.overwrite elem v.1 d.1 else d.1,
        if ordinal = index then d.2 else Variants.overwrite rest ordinal (index + 1) v.2 d.2)
end

section Runs

variable {σ : Type}

theorem chooseAnd_eq_ok (generated : Bool) (ordinal : UInt32) {inner : Decode Exc σ Unit}
    {off off' : Nat} {slot slot' : ChoiceSlot σ} :
    chooseAnd generated ordinal inner ⟨off, slot⟩ = .ok () ⟨off', slot'⟩ ↔
      inner ⟨off, slot.store⟩ = .ok () ⟨off', slot'.store⟩ ∧ slot'.ordinal = ordinal := by
  refine (markAnd_eq_ok ?_ ?_).trans ?_
  · exact fun _ => rfl
  · exact fun _ _ => rfl
  constructor
  · intro run
    rcases run with ⟨store, filled, rfl⟩
    exact ⟨filled, rfl⟩
  · intro run
    rcases run with ⟨filled, rfl⟩
    exact ⟨slot'.store, filled, rfl⟩

theorem enableAnd_eq_ok (generated : Bool) {inner : Decode Exc σ Unit} {off off' : Nat}
    {slot slot' : OptSlot σ} :
    enableAnd generated inner ⟨off, slot⟩ = .ok () ⟨off', slot'⟩ ↔
      inner ⟨off, slot.value⟩ = .ok () ⟨off', slot'.value⟩ ∧ slot'.has = true := by
  refine (markAnd_eq_ok ?_ ?_).trans ?_
  · exact fun _ => rfl
  · exact fun _ _ => rfl
  constructor
  · intro run
    rcases run with ⟨value, filled, rfl⟩
    exact ⟨filled, rfl⟩
  · intro run
    rcases run with ⟨filled, present⟩
    refine ⟨slot'.value, filled, ?_⟩
    rw [← present]

theorem pushItem_eq_ok {maxOccurs : Option Nat} {fresh : σ} {copy : σ → σ}
    {inner : Decode Exc σ Unit} {off off' : Nat} {list longer : AccessorList maxOccurs σ} :
    pushItem fresh copy inner ⟨off, list⟩ = .ok () ⟨off', longer⟩ ↔
      ∃ item, inner ⟨off, fresh⟩ = .ok () ⟨off', item⟩ ∧ list.pushBack (copy item) = .ok longer := by
  simp only [pushItem, bind_eq_ok, onNew_eq_ok, modifyOrThrow_eq_ok]
  constructor
  · intro given
    rcases given with ⟨item, ⟨mid, same⟩, ⟨made, rfl⟩, ⟨pushed, rfl⟩⟩
    exact ⟨item, made, pushed⟩
  · intro given
    rcases given with ⟨item, made, pushed⟩
    exact ⟨item, ⟨off', list⟩, ⟨made, rfl⟩, ⟨pushed, rfl⟩⟩

theorem times_pushItem {maxOccurs : Option Nat} {whole : Bytes} {append : Bytes → σ → Bytes}
    {fresh : σ} (copy result : σ → σ) {inner : Decode Exc σ Unit}
    (grows : ∀ buf item, buf <+: append buf item) (items : List σ)
    (each : ∀ item ∈ items, ∀ buf, append buf item <+: whole →
      inner ⟨buf.length, fresh⟩ = .ok () ⟨(append buf item).length, result item⟩)
    (buf : Bytes) (list : AccessorList maxOccurs σ)
    (room : ∀ limit ∈ maxOccurs, list.items.length + items.length ≤ limit)
    (inside : items.foldl append buf <+: whole) :
    ∃ longer : AccessorList maxOccurs σ,
      times (pushItem fresh copy inner) items.length ⟨buf.length, list⟩ =
        .ok () ⟨(items.foldl append buf).length, longer⟩ ∧
      longer.items = list.items ++ items.map fun item => copy (result item) := by
  induction items generalizing buf list with
  | nil => exact ⟨list, rfl, by simp⟩
  | cons item rest ih =>
      have decoded := each item (by simp) buf
        ((foldl_extends append grows rest (append buf item)).trans inside)
      obtain ⟨pushed, push, pushedItems⟩ := AccessorList.pushBack_room list
        (copy (result item)) (by
          intro limit bound
          have space := room limit bound
          rw [List.length_cons] at space
          omega)
      have one : pushItem fresh copy inner ⟨buf.length, list⟩ =
          .ok () ⟨(append buf item).length, pushed⟩ :=
        pushItem_eq_ok.mpr ⟨result item, decoded, push⟩
      obtain ⟨longer, run, longerItems⟩ := ih
        (fun other member => each other (List.mem_cons_of_mem _ member)) (append buf item) pushed
        (by
          intro limit bound
          have space := room limit bound
          rw [pushedItems, List.length_append, List.length_singleton]
          rw [List.length_cons] at space
          omega)
        inside
      refine ⟨longer, (bind_ok one).trans run, ?_⟩
      rw [longerItems, pushedItems, List.map_cons, List.append_assoc, List.singleton_append]

theorem decodeList_run {maxOccurs : Option Nat} {whole : Bytes} (append : Bytes → σ → Bytes)
    {fresh : σ} (copy result : σ → σ) {inner : Decode Exc σ Unit}
    (grows : ∀ buf item, buf <+: append buf item) (v d : AccessorList maxOccurs σ)
    (short : v.items.length < 2 ^ 32)
    (each : ∀ item ∈ v.items, ∀ buf, append buf item <+: whole →
      inner ⟨buf.length, fresh⟩ = .ok () ⟨(append buf item).length, result item⟩)
    (buf : Bytes)
    (inside : v.items.foldl append (encodeSequenceLength buf (UInt32.ofNat v.items.length)) <+:
      whole) :
    decodeList whole fresh copy inner ⟨buf.length, d⟩ =
      .ok () ⟨(v.items.foldl append
          (encodeSequenceLength buf (UInt32.ofNat v.items.length))).length,
        v.map fun item => copy (result item)⟩ := by
  have count : (UInt32.ofNat v.items.length).toNat = v.items.length := by
    rw [UInt32.toNat_ofNat']
    exact Nat.mod_eq_of_lt short
  have header : decodeSequenceLength whole buf.length = .ok (UInt32.ofNat v.items.length)
      (encodeSequenceLength buf (UInt32.ofNat v.items.length)).length :=
    decodeUint32_encode ((foldl_extends append grows v.items _).trans inside)
  obtain ⟨longer, run, items⟩ := times_pushItem copy result grows v.items each _ .clear
    (by
      intro limit bound
      have room := v.bounded limit bound
      simpa [AccessorList.clear] using room)
    inside
  rw [decodeList, bind_ok (position_ok header), bind_ok (assign_run _ _), count, run]
  congr 2
  apply AccessorList.ext
  simpa [AccessorList.clear, AccessorList.map] using items

theorem decodeChoice_run {whole buf : Bytes} {ordinal : UInt32} (selected : Nat → Option Bool)
    (inner : Nat → Decode Exc σ Unit) (slot : ChoiceSlot σ) {off' : Nat} {store : σ}
    (inside : encodeUint32 buf ordinal <+: whole)
    (filled : (selected ordinal.toNat).isSome → inner ordinal.toNat
      ⟨(encodeUint32 buf ordinal).length, slot.store⟩ = .ok () ⟨off', store⟩)
    (skipped : (selected ordinal.toNat).isSome = false → off' = (encodeUint32 buf ordinal).length) :
    decodeChoice whole selected inner ⟨buf.length, slot⟩ =
      .ok () ⟨off', if (selected ordinal.toNat).isSome then ⟨ordinal, store⟩ else slot⟩ := by
  rw [decodeChoice, bind_ok (position_ok (decodeUint32_encode inside))]
  cases case : selected ordinal.toNat with
  | none =>
      rw [skipped (by rw [case]; rfl)]
      rfl
  | some generated =>
      exact (chooseAnd_eq_ok generated ordinal).mpr ⟨filled (by rw [case]; rfl), rfl⟩

theorem decodeOptional_run {whole buf : Bytes} {present : Bool} (generated : Bool)
    (inner : Decode Exc σ Unit) (slot : OptSlot σ) (off' : Nat) (value : σ)
    (inside : encodeOptionalFlag buf present <+: whole)
    (filled : present = true → inner ⟨(encodeOptionalFlag buf present).length, slot.value⟩ =
      .ok () ⟨off', value⟩)
    (skipped : present = false → off' = (encodeOptionalFlag buf present).length) :
    decodeOptional whole generated inner ⟨buf.length, slot⟩ =
      .ok () ⟨off', if present then ⟨true, value⟩ else slot⟩ := by
  have flag : decodeOptionalFlag whole buf.length =
      .ok present (encodeOptionalFlag buf present).length :=
    decode_encode .bool trivial inside
  rw [decodeOptional, bind_ok (position_ok flag)]
  cases present with
  | false =>
      rw [skipped rfl]
      rfl
  | true => exact (enableAnd_eq_ok generated).mpr ⟨filled rfl, rfl⟩

end Runs

theorem Variants.serialize_unselected (vs : Variants) {ordinal index : Nat} (v : vs.Impl)
    (buf : Bytes) (none' : (Variants.selected vs ordinal index).isSome = false) :
    Variants.serialize vs ordinal index v buf = buf := by
  cases vs with
  | nil => simp only [Variants.serialize]
  | cons _ elem rest =>
      simp only [Variants.selected] at none'
      split at none'
      · cases none'
      · next other =>
        simp only [Variants.serialize, if_neg other]
        exact Variants.serialize_unselected rest v.2 buf none'

theorem Variants.serialize_past (vs : Variants) {ordinal index : Nat} (v : vs.Impl)
    (buf : Bytes) (past : ordinal < index) : Variants.serialize vs ordinal index v buf = buf := by
  cases vs with
  | nil => simp only [Variants.serialize]
  | cons _ elem rest =>
      simp only [Variants.serialize, if_neg (by omega : ordinal ≠ index)]
      exact Variants.serialize_past rest v.2 buf (by omega)

mutual
/-- Decoding reads exactly the bytes that were appended, and overwrites the destination. -/
theorem Elem.deserializeAt_serialize : (e : Elem) → (v d : e.Impl) → (buf whole : Bytes) →
    Elem.InLimits e v → Elem.serialize e v buf <+: whole →
    Elem.deserializeAt whole e ⟨buf.length, d⟩ =
      .ok () ⟨(Elem.serialize e v buf).length, Elem.overwrite e v d⟩
  | .prim t, v, d, buf, whole, limits, inside => by
      simp only [Elem.InLimits, Elem.serialize, Elem.deserializeAt, Elem.overwrite]
        at limits inside ⊢
      exact bind_ok (position_ok (decode_encode t limits inside))
  | .enum _ _, v, d, buf, whole, _, inside => by
      simp only [Elem.serialize, Elem.deserializeAt, Elem.overwrite] at inside ⊢
      exact bind_ok (position_ok (decodeUint32_encode inside))
  | .cls _ body, v, d, buf, whole, limits, inside => by
      simp only [Elem.InLimits, Elem.serialize, Elem.deserializeAt, Elem.overwrite]
        at limits inside ⊢
      exact Members.deserializeAt_serialize body v d buf whole limits inside

theorem Members.deserializeAt_serialize : (ms : Members) → (v d : ms.Impl) →
    (buf whole : Bytes) → Members.InLimits ms v → Members.serialize ms v buf <+: whole →
    Members.deserializeAt whole ms ⟨buf.length, d⟩ =
      .ok () ⟨(Members.serialize ms v buf).length, Members.overwrite ms v d⟩
  | .nil, _, _, _, _, _, _ => by
      simp only [Members.serialize, Members.deserializeAt, Members.overwrite, pure_run]
  | .base _ body rest, v, d, buf, whole, limits, inside => by
      simp only [Members.InLimits, Members.serialize, Members.deserializeAt, Members.overwrite]
        at limits inside ⊢
      have first := Members.deserializeAt_serialize body v.1 d.1 buf whole limits.1
        ((Members.serialize_extends rest v.2 _).trans inside)
      have later := Members.deserializeAt_serialize rest v.2 d.2 _ whole limits.2 inside
      exact (bind_ok (onFst_ok first)).trans (onSnd_ok later)
  | .choice variants rest, v, d, buf, whole, limits, inside => by
      simp only [Members.InLimits, Members.serialize, Members.deserializeAt, Members.overwrite]
        at limits inside ⊢
      have chosen := (Members.serialize_extends rest v.2 _).trans inside
      have later := Members.deserializeAt_serialize rest v.2 d.2 _ whole limits.2 inside
      have first := decodeChoice_run (Variants.selected variants · 1)
        (fun ordinal => Variants.deserializeAt whole variants ordinal 1) d.1
        ((Variants.serialize_extends variants _ 1 v.1.store _).trans chosen)
        (fun isCase => Variants.deserializeAt_serialize variants _ 1 v.1.store d.1.store
          (encodeUint32 buf v.1.ordinal) whole isCase limits.1 chosen)
        (fun noCase => congrArg List.length
          (Variants.serialize_unselected variants v.1.store _ noCase))
      exact (bind_ok (onFst_ok first)).trans (onSnd_ok later)
  | .required _ elem rest, v, d, buf, whole, limits, inside => by
      simp only [Members.InLimits, Members.serialize, Members.deserializeAt, Members.overwrite]
        at limits inside ⊢
      have first := Elem.deserializeAt_serialize elem v.1 d.1 buf whole limits.1
        ((Members.serialize_extends rest v.2 _).trans inside)
      have later := Members.deserializeAt_serialize rest v.2 d.2 _ whole limits.2 inside
      exact (bind_ok (onFst_ok first)).trans (onSnd_ok later)
  | .optional _ elem rest, v, d, buf, whole, limits, inside => by
      simp only [Members.InLimits, Members.serialize, Members.deserializeAt, Members.overwrite]
        at limits inside ⊢
      have stored := (Members.serialize_extends rest v.2 _).trans inside
      have later := Members.deserializeAt_serialize rest v.2 d.2 _ whole limits.2 inside
      have flagInside : encodeOptionalFlag buf v.1.has <+: whole := by
        refine List.IsPrefix.trans ?_ stored
        split
        · exact Elem.serialize_extends elem v.1.value _
        · exact List.prefix_refl _
      have first := decodeOptional_run (Elem.isGenerated elem)
        (Elem.deserializeAt whole elem) d.1
        (if v.1.has then Elem.serialize elem v.1.value (encodeOptionalFlag buf v.1.has)
          else encodeOptionalFlag buf v.1.has).length
        (Elem.overwrite elem v.1.value d.1.value) flagInside
        (fun present => by
          rw [if_pos present]
          rw [if_pos present] at stored
          exact Elem.deserializeAt_serialize elem v.1.value d.1.value _ whole
            (limits.1 present) stored)
        (fun absent => by rw [if_neg (by simp [absent])])
      exact (bind_ok (onFst_ok first)).trans (onSnd_ok later)
  | .list _ _ elem rest, v, d, buf, whole, limits, inside => by
      simp only [Members.InLimits, Members.serialize, Members.deserializeAt, Members.overwrite]
        at limits inside ⊢
      have first := decodeList_run (fun buf item => Elem.serialize elem item buf)
        (elem.copy elem.fresh) (fun item => Elem.overwrite elem item elem.fresh)
        (fun buf item => Elem.serialize_extends elem item buf) v.1 d.1 limits.1.1
        (fun item member buf within => Elem.deserializeAt_serialize elem item elem.fresh buf whole
          (limits.1.2 item member) within)
        buf ((Members.serialize_extends rest v.2 _).trans inside)
      have later := Members.deserializeAt_serialize rest v.2 d.2 _ whole limits.2 inside
      exact (bind_ok (onFst_ok first)).trans (onSnd_ok later)

theorem Variants.deserializeAt_serialize : (vs : Variants) → (ordinal index : Nat) →
    (v d : vs.Impl) → (buf whole : Bytes) → (Variants.selected vs ordinal index).isSome →
    Variants.InLimits vs ordinal index v → Variants.serialize vs ordinal index v buf <+: whole →
    Variants.deserializeAt whole vs ordinal index ⟨buf.length, d⟩ =
      .ok () ⟨(Variants.serialize vs ordinal index v buf).length,
        Variants.overwrite vs ordinal index v d⟩
  | .nil, _, _, _, _, _, _, isCase, _, _ => by
      simp only [Variants.selected] at isCase
      cases isCase
  | .cons _ elem rest, ordinal, index, v, d, buf, whole, isCase, limits, inside => by
      simp only [Variants.selected] at isCase
      simp only [Variants.InLimits, Variants.serialize, Variants.deserializeAt,
        Variants.overwrite] at limits inside ⊢
      by_cases here : ordinal = index
      · simp only [if_pos here] at inside ⊢
        rw [Variants.serialize_past rest v.2 _ (by omega)] at inside ⊢
        exact onFst_ok (Elem.deserializeAt_serialize elem v.1 d.1 buf whole (limits.1 here) inside)
      · simp only [if_neg here] at isCase inside ⊢
        exact onSnd_ok (Variants.deserializeAt_serialize rest ordinal (index + 1) v.2 d.2 buf whole
          isCase limits.2 inside)
end

mutual
/-- Nothing of the destination shows through: what is absent in the source is absent
there, and an ordinal without a case is there already. -/
def Elem.NoStale : (e : Elem) → (v d : e.Impl) → Prop
  | .prim _, _, _ => True
  | .enum _ _, _, _ => True
  | .cls _ body, v, d => Members.NoStale body v d

def Members.NoStale : (ms : Members) → (v d : ms.Impl) → Prop
  | .nil, _, _ => True
  | .base _ body rest, v, d => Members.NoStale body v.1 d.1 ∧ Members.NoStale rest v.2 d.2
  | .choice variants rest, v, d =>
      ((Variants.selected variants v.1.ordinal.toNat 1).isSome = false →
          d.1.ordinal = v.1.ordinal) ∧
        Variants.NoStale variants v.1.ordinal.toNat 1 v.1.store d.1.store ∧
        Members.NoStale rest v.2 d.2
  | .required _ elem rest, v, d => Elem.NoStale elem v.1 d.1 ∧ Members.NoStale rest v.2 d.2
  | .optional _ elem rest, v, d =>
      (v.1.has = false → d.1.has = false) ∧
        (v.1.has = true → Elem.NoStale elem v.1.value d.1.value) ∧ Members.NoStale rest v.2 d.2
  | .list _ _ elem rest, v, d =>
      (∀ item ∈ v.1.items, Elem.NoStale elem item elem.fresh) ∧ Members.NoStale rest v.2 d.2

def Variants.NoStale : (vs : Variants) → (ordinal index : Nat) → (v d : vs.Impl) → Prop
  | .nil, _, _, _, _ => True
  | .cons _ elem rest, ordinal, index, v, d =>
      (ordinal = index → Elem.NoStale elem v.1 d.1) ∧
        Variants.NoStale rest ordinal (index + 1) v.2 d.2
end

theorem Variants.noStale_past (vs : Variants) {ordinal index : Nat} (past : ordinal < index)
    (v d : vs.Impl) : Variants.NoStale vs ordinal index v d := by
  cases vs with
  | nil => simp only [Variants.NoStale]
  | cons _ elem rest =>
      simp only [Variants.NoStale]
      exact ⟨fun chosen => absurd chosen (by omega),
        Variants.noStale_past rest (by omega) v.2 d.2⟩

theorem Variants.agrees_unselected (vs : Variants) {ordinal index : Nat}
    (none' : (Variants.selected vs ordinal index).isSome = false) (left right : vs.Impl) :
    vs.Agrees ordinal index left right := by
  cases vs with
  | nil => simp only [Variants.Agrees]
  | cons _ elem rest =>
      simp only [Variants.selected] at none'
      split at none'
      · cases none'
      · next other =>
        simp only [Variants.Agrees]
        exact ⟨fun chosen => absurd chosen other,
          Variants.agrees_unselected rest none' left.2 right.2⟩

theorem Variants.noStale_unselected (vs : Variants) {ordinal index : Nat}
    (none' : (Variants.selected vs ordinal index).isSome = false) (v d : vs.Impl) :
    Variants.NoStale vs ordinal index v d := by
  cases vs with
  | nil => simp only [Variants.NoStale]
  | cons _ elem rest =>
      simp only [Variants.selected] at none'
      split at none'
      · cases none'
      · next other =>
        simp only [Variants.NoStale]
        exact ⟨fun chosen => absurd chosen other,
          Variants.noStale_unselected rest none' v.2 d.2⟩

mutual
theorem Elem.overwrite_agrees_iff : (e : Elem) → (v d : e.Impl) →
    (e.Agrees (Elem.overwrite e v d) v ↔ Elem.NoStale e v d)
  | .prim _, _, _ => by simp only [Elem.Agrees, Elem.overwrite, Elem.NoStale]
  | .enum _ _, _, _ => by simp only [Elem.Agrees, Elem.overwrite, Elem.NoStale]
  | .cls _ body, v, d => by
      simp only [Elem.Agrees, Elem.overwrite, Elem.NoStale]
      exact Members.overwrite_agrees_iff body v d

theorem Members.overwrite_agrees_iff : (ms : Members) → (v d : ms.Impl) →
    (ms.Agrees (Members.overwrite ms v d) v ↔ Members.NoStale ms v d)
  | .nil, _, _ => by simp only [Members.Agrees, Members.NoStale]
  | .base _ body rest, v, d => by
      simp only [Members.Agrees, Members.overwrite, Members.NoStale]
      exact and_congr (Members.overwrite_agrees_iff body v.1 d.1)
        (Members.overwrite_agrees_iff rest v.2 d.2)
  | .choice variants rest, v, d => by
      simp only [Members.Agrees, Members.overwrite, Members.NoStale]
      rw [Members.overwrite_agrees_iff rest v.2 d.2]
      cases case : (Variants.selected variants v.1.ordinal.toNat 1).isSome with
      | true =>
          have chosen := Variants.overwrite_agrees_iff variants v.1.ordinal.toNat 1 v.1.store
            d.1.store case
          simp [chosen]
      | false =>
          have shown := Variants.agrees_unselected variants case d.1.store v.1.store
          have clean := Variants.noStale_unselected variants case v.1.store d.1.store
          simp [shown, clean]
  | .required _ elem rest, v, d => by
      simp only [Members.Agrees, Members.overwrite, Members.NoStale]
      exact and_congr (Elem.overwrite_agrees_iff elem v.1 d.1)
        (Members.overwrite_agrees_iff rest v.2 d.2)
  | .optional _ elem rest, v, d => by
      simp only [Members.Agrees, Members.overwrite, Members.NoStale]
      rw [Members.overwrite_agrees_iff rest v.2 d.2]
      cases present : v.1.has with
      | true => simp [Elem.overwrite_agrees_iff elem v.1.value d.1.value]
      | false => simp
  | .list _ _ elem rest, v, d => by
      simp only [Members.Agrees, Members.overwrite, Members.NoStale, AccessorList.map]
      rw [Members.overwrite_agrees_iff rest v.2 d.2, List.forall₂_map_left_iff,
        List.forall₂_same]
      refine and_congr_left fun _ => forall₂_congr fun item _ => ?_
      rw [elem.copy_agrees_iff]
      exact Elem.overwrite_agrees_iff elem item elem.fresh

theorem Variants.overwrite_agrees_iff : (vs : Variants) → (ordinal index : Nat) →
    (v d : vs.Impl) → (Variants.selected vs ordinal index).isSome = true →
    (vs.Agrees ordinal index (Variants.overwrite vs ordinal index v d) v ↔
      Variants.NoStale vs ordinal index v d)
  | .nil, _, _, _, _, isCase => by
      simp only [Variants.selected] at isCase
      cases isCase
  | .cons _ elem rest, ordinal, index, v, d, isCase => by
      simp only [Variants.selected] at isCase
      simp only [Variants.Agrees, Variants.overwrite, Variants.NoStale]
      by_cases here : ordinal = index
      · have behind : ordinal < index + 1 := by omega
        simp [here, Variants.agrees_past rest, Variants.noStale_past rest,
          Elem.overwrite_agrees_iff elem v.1 d.1]
      · rw [if_neg here] at isCase
        simp only [if_neg here]
        rw [Variants.overwrite_agrees_iff rest ordinal (index + 1) v.2 d.2 isCase]
        simp [here]
end

mutual
/-- Every choice that gets encoded is NONE or a declared variant. -/
def Elem.ChoicesDeclared : (e : Elem) → e.Impl → Prop
  | .prim _, _ => True
  | .enum _ _, _ => True
  | .cls _ body, v => Members.ChoicesDeclared body v

def Members.ChoicesDeclared : (ms : Members) → ms.Impl → Prop
  | .nil, _ => True
  | .base _ body rest, v => Members.ChoicesDeclared body v.1 ∧ Members.ChoicesDeclared rest v.2
  | .choice variants rest, v =>
      (v.1.ordinal = 0 ∨ (Variants.selected variants v.1.ordinal.toNat 1).isSome) ∧
        Variants.ChoicesDeclared variants v.1.ordinal.toNat 1 v.1.store ∧
        Members.ChoicesDeclared rest v.2
  | .required _ elem rest, v => Elem.ChoicesDeclared elem v.1 ∧ Members.ChoicesDeclared rest v.2
  | .optional _ elem rest, v =>
      (v.1.has = true → Elem.ChoicesDeclared elem v.1.value) ∧ Members.ChoicesDeclared rest v.2
  | .list _ _ elem rest, v =>
      (∀ item ∈ v.1.items, Elem.ChoicesDeclared elem item) ∧ Members.ChoicesDeclared rest v.2

def Variants.ChoicesDeclared : (vs : Variants) → (ordinal index : Nat) → vs.Impl → Prop
  | .nil, _, _, _ => True
  | .cons _ elem rest, ordinal, index, v =>
      (ordinal = index → Elem.ChoicesDeclared elem v.1) ∧
        Variants.ChoicesDeclared rest ordinal (index + 1) v.2
end

mutual
theorem Elem.noStale_fresh_iff : (e : Elem) → (v d : e.Impl) → e.IsFresh d →
    (Elem.NoStale e v d ↔ Elem.ChoicesDeclared e v)
  | .prim _, _, _, _ => by simp only [Elem.NoStale, Elem.ChoicesDeclared]
  | .enum _ _, _, _, _ => by simp only [Elem.NoStale, Elem.ChoicesDeclared]
  | .cls _ body, v, d, fresh => by
      simp only [Elem.ChoicesDeclared, Elem.IsFresh, Elem.NoStale] at fresh ⊢
      exact Members.noStale_fresh_iff body v d fresh

theorem Members.noStale_fresh_iff : (ms : Members) → (v d : ms.Impl) → ms.IsFresh d →
    (Members.NoStale ms v d ↔ Members.ChoicesDeclared ms v)
  | .nil, _, _, _ => by simp only [Members.NoStale, Members.ChoicesDeclared]
  | .base _ body rest, v, d, fresh => by
      simp only [Members.ChoicesDeclared, Members.IsFresh, Members.NoStale] at fresh ⊢
      rw [Members.noStale_fresh_iff body _ _ fresh.1, Members.noStale_fresh_iff rest _ _ fresh.2]
  | .choice variants rest, v, d, fresh => by
      simp only [Members.ChoicesDeclared, Members.IsFresh, Members.NoStale] at fresh ⊢
      rcases fresh with ⟨freshOrdinal, freshStores, freshOthers⟩
      rw [Variants.noStale_fresh_iff variants _ 1 _ _ freshStores,
        Members.noStale_fresh_iff rest _ _ freshOthers, freshOrdinal]
      apply and_congr_left
      intro _
      cases Option.isSome (Variants.selected variants v.1.ordinal.toNat 1) with
      | true => simp
      | false => simp [eq_comm]
  | .required _ elem rest, v, d, fresh => by
      simp only [Members.ChoicesDeclared, Members.IsFresh, Members.NoStale] at fresh ⊢
      rw [Elem.noStale_fresh_iff elem _ _ fresh.1, Members.noStale_fresh_iff rest _ _ fresh.2]
  | .optional _ elem rest, v, d, fresh => by
      simp only [Members.ChoicesDeclared, Members.IsFresh, Members.NoStale] at fresh ⊢
      rcases fresh with ⟨absent, value, others⟩
      rw [Elem.noStale_fresh_iff elem _ _ value, Members.noStale_fresh_iff rest _ _ others]
      simp [absent]
  | .list _ _ elem rest, v, d, fresh => by
      simp only [Members.ChoicesDeclared, Members.IsFresh, Members.NoStale] at fresh ⊢
      rw [Members.noStale_fresh_iff rest _ _ fresh.2]
      apply and_congr_left
      intro _
      apply forall₂_congr
      intro item _
      exact Elem.noStale_fresh_iff elem item _ elem.fresh_isFresh

theorem Variants.noStale_fresh_iff : (vs : Variants) → (ordinal index : Nat) → (v d : vs.Impl) →
    vs.IsFresh d →
    (Variants.NoStale vs ordinal index v d ↔ Variants.ChoicesDeclared vs ordinal index v)
  | .nil, _, _, _, _, _ => by simp only [Variants.NoStale, Variants.ChoicesDeclared]
  | .cons _ elem rest, ordinal, index, v, d, fresh => by
      simp only [Variants.ChoicesDeclared, Variants.IsFresh, Variants.NoStale] at fresh ⊢
      rw [Elem.noStale_fresh_iff elem _ _ fresh.1,
        Variants.noStale_fresh_iff rest ordinal (index + 1) _ _ fresh.2]
end

/-- For every class of a well-formed schema, decoding undoes encoding wherever the
object stands in a buffer. -/
theorem deserializeAt_undoes_serialize {schema : SchemaModel} (wf : WellFormed schema)
    (typeName : String) {m : TypeModel} (found : schema.find typeName = some m)
    (classy : m.isSimpleRestriction = false) :
    ∃ e, layout schema typeName = some e ∧
      ∀ (v : e.Impl) (before : Bytes), Elem.InLimits e v → Elem.ChoicesDeclared e v →
        ∃ encoded, Elem.serialize e v before = before ++ encoded ∧
          ∀ (after : Bytes) (d : e.Impl), e.IsFresh d →
            ∃ got, Elem.deserializeAt (before ++ encoded ++ after) e ⟨before.length, d⟩ =
                .ok () ⟨before.length + encoded.length, got⟩ ∧
              e.Agrees got v := by
  rcases exists_layout wf found classy with ⟨e, laidOut⟩
  refine ⟨e, laidOut, ?_⟩
  intro v before limits declared
  rcases Elem.serialize_extends e v before with ⟨encoded, appended⟩
  refine ⟨encoded, appended.symm, ?_⟩
  intro after d fresh
  have inside : Elem.serialize e v before <+: before ++ encoded ++ after := by
    rw [appended]
    exact List.prefix_append _ after
  have run := Elem.deserializeAt_serialize e v d before _ limits inside
  rw [← appended, List.length_append] at run
  exact ⟨_, run, (Elem.overwrite_agrees_iff e v d).mpr
    ((Elem.noStale_fresh_iff e v d fresh).mpr declared)⟩

theorem sampleTrack_inLimits : Elem.InLimits trackLayout sampleTrack := by
  simp [trackLayout, headerMembers, sampleTrack, Elem.InLimits, Members.InLimits,
    Variants.InLimits, Fits]
  decide

theorem speedTrack_inLimits : Elem.InLimits trackLayout speedTrack := by
  simp [trackLayout, headerMembers, speedTrack, Elem.InLimits, Members.InLimits,
    Variants.InLimits, Fits]
  decide

theorem sampleTrack_choicesDeclared : Elem.ChoicesDeclared trackLayout sampleTrack := by
  simp [trackLayout, headerMembers, sampleTrack, Elem.ChoicesDeclared, Members.ChoicesDeclared,
    Variants.ChoicesDeclared, Variants.selected]

theorem deserializeAt_undoes_serialize_track :
    ∃ encoded, Elem.serialize trackLayout sampleTrack [0xff] = [0xff] ++ encoded ∧
      ∃ got, Elem.deserializeAt ([0xff] ++ encoded ++ [7]) trackLayout ⟨1, trackLayout.fresh⟩ =
          .ok () ⟨1 + encoded.length, got⟩ ∧
        trackLayout.Agrees got sampleTrack := by
  obtain ⟨e, laidOut, roundTrip⟩ := deserializeAt_undoes_serialize sampleSchema_wellFormed
    "TrackMDT" rfl rfl
  have same : trackLayout = e := Option.some.inj (layout_sampleSchema.symm.trans laidOut)
  subst same
  obtain ⟨encoded, appended, decoded⟩ :=
    roundTrip sampleTrack [0xff] sampleTrack_inLimits sampleTrack_choicesDeclared
  exact ⟨encoded, appended, decoded [7] trackLayout.fresh trackLayout.fresh_isFresh⟩

end Arcal.Cdr
