import Arcal.Cdr.Registry

/-! `CdrExternalizer`: a write into an empty vector read back into an accessor that
already holds something. Unlike the JSON externalizer, `read` does not reset the
accessor first, so the answer depends on what it held. -/

namespace Arcal.Cdr

open Schema InPlace

theorem decodeString_short {buf s : Bytes} {off off' : Nat}
    (run : decodeString buf off = .ok s off') : s.length + 1 < 2 ^ 32 := by
  rcases bind_eq_ok.mp run with ⟨len, mid, _, rest⟩
  have bound := len.toNat_lt
  split at rest
  · injection rest with same _
    rw [← same]
    decide
  · obtain ⟨_, at', _, last⟩ := bind_eq_ok.mp rest
    injection last with same _
    rw [← same, List.length_take]
    omega

theorem decodeBytes_short {buf v : Bytes} {off off' : Nat}
    (run : decodeBytes buf off = .ok v off') : v.length < 2 ^ 32 := by
  rcases bind_eq_ok.mp run with ⟨len, mid, _, rest⟩
  rcases bind_eq_ok.mp rest with ⟨_, at', _, last⟩
  injection last with same _
  have bound := len.toNat_lt
  rw [← same, List.length_take]
  omega

theorem decode_fits {t : CxxType} {buf : Bytes} {off off' : Nat} {v : t.Value}
    (run : decode buf t off = .ok v off') : Fits t v := by
  cases t with
  | string => exact decodeString_short run
  | bytes => exact decodeBytes_short run
  | bool => trivial
  | int8 => trivial
  | uint8 => trivial
  | int16 => trivial
  | uint16 => trivial
  | int32 => trivial
  | uint32 => trivial
  | int64 => trivial
  | uint64 => trivial
  | float => trivial
  | double => trivial
  | uuid => trivial

section Lists

variable {σ : Type} {maxOccurs : Option Nat} {fresh : σ} {copy : σ → σ} {inner : Decode Exc σ Unit}

theorem times_pushItem_items {count off off' : Nat} {list longer : AccessorList maxOccurs σ}
    (run : times (pushItem fresh copy inner) count ⟨off, list⟩ = .ok () ⟨off', longer⟩) :
    ∃ added, longer.items = list.items ++ added ∧ added.length = count := by
  induction count generalizing off list with
  | zero =>
      injection run with _ same
      injection same with _ same
      exact ⟨[], by rw [← same, List.append_nil], rfl⟩
  | succ count ih =>
      rcases bind_eq_ok.mp run with ⟨_, ⟨mid, pushed⟩, first, rest⟩
      rcases pushItem_eq_ok.mp first with ⟨item, _, push⟩
      rcases ih rest with ⟨added, items, size⟩
      refine ⟨copy item :: added, ?_, by rw [List.length_cons, size]⟩
      rw [items, AccessorList.pushBack_items push, List.append_assoc, List.singleton_append]

theorem times_pushItem_limits {whole : Bytes} (append : Bytes → σ → Bytes)
    (agrees : σ → σ → Prop) (limits : σ → Prop) (result : σ → σ)
    (grows : ∀ buf item, buf <+: append buf item)
    (items : List σ)
    (copied : ∀ made item, agrees (copy made) item → agrees made item)
    (back : ∀ item ∈ items, ∀ buf off' made, append buf item <+: whole →
      inner ⟨buf.length, fresh⟩ = .ok () ⟨off', made⟩ → agrees made item → limits item)
    (exact' : ∀ item ∈ items, ∀ buf, append buf item <+: whole → limits item →
      inner ⟨buf.length, fresh⟩ = .ok () ⟨(append buf item).length, result item⟩)
    {buf : Bytes} {off' : Nat} {list longer : AccessorList maxOccurs σ} {added : List σ}
    (inside : items.foldl append buf <+: whole)
    (run : times (pushItem fresh copy inner) items.length ⟨buf.length, list⟩ =
      .ok () ⟨off', longer⟩)
    (items_eq : longer.items = list.items ++ added) (shown : List.Forall₂ agrees added items) :
    ∀ item ∈ items, limits item := by
  induction items generalizing buf list added with
  | nil => simp
  | cons item rest ih =>
      rcases bind_eq_ok.mp run with ⟨_, ⟨mid, pushed⟩, first, later⟩
      rcases pushItem_eq_ok.mp first with ⟨made, filled, push⟩
      rcases times_pushItem_items later with ⟨extra, extraItems, _⟩
      have within := (foldl_extends append grows rest (append buf item)).trans inside
      cases shown with
      | @cons head _ others _ same more =>
          have pieces : head :: others = copy made :: extra := by
            have both := items_eq.symm.trans extraItems
            rw [AccessorList.pushBack_items push, List.append_assoc, List.singleton_append]
              at both
            exact List.append_cancel_left both
          injection pieces with headEq othersEq
          subst headEq othersEq
          have here : limits item :=
            back item (by simp) buf mid made within filled (copied made item same)
          have again := exact' item (by simp) buf within here
          rw [again] at filled
          injection filled with _ cursor
          injection cursor with stop _
          subst stop
          intro other member
          rcases List.mem_cons.mp member with rfl | inRest
          · exact here
          · exact ih (fun x inside => back x (List.mem_cons_of_mem _ inside))
              (fun x inside => exact' x (List.mem_cons_of_mem _ inside)) inside later extraItems
              more other inRest

end Lists

theorem Variants.inLimits_unselected (vs : Variants) {ordinal index : Nat}
    (none' : (Variants.selected vs ordinal index).isSome = false) (v : vs.Impl) :
    Variants.InLimits vs ordinal index v := by
  cases vs with
  | nil => simp only [Variants.InLimits]
  | cons _ elem rest =>
      simp only [Variants.selected] at none'
      split at none'
      · cases none'
      · next other =>
        simp only [Variants.InLimits]
        exact ⟨fun chosen => absurd chosen other, Variants.inLimits_unselected rest none' v.2⟩

theorem Variants.inLimits_past (vs : Variants) {ordinal index : Nat} (past : ordinal < index)
    (v : vs.Impl) : Variants.InLimits vs ordinal index v := by
  cases vs with
  | nil => simp only [Variants.InLimits]
  | cons _ elem rest =>
      simp only [Variants.InLimits]
      exact ⟨fun chosen => absurd chosen (by omega),
        Variants.inLimits_past rest (by omega) v.2⟩

mutual
/-- If decoding the bytes of `v` gives an object that shows `v`, then `v` is within the
limits: the first length that was cut would already show. -/
theorem Elem.inLimits_of_agrees : (e : Elem) → (v d got : e.Impl) → (buf whole : Bytes) →
    (off' : Nat) → Elem.serialize e v buf <+: whole →
    Elem.deserializeAt whole e ⟨buf.length, d⟩ = .ok () ⟨off', got⟩ → e.Agrees got v →
    Elem.InLimits e v
  | .prim t, v, d, got, buf, whole, off', _, run, same => by
      simp only [Elem.deserializeAt, Elem.Agrees, Elem.InLimits] at run same ⊢
      rcases bind_eq_ok.mp run with ⟨made, mid, decoded, assigned⟩
      rcases position_eq_ok.mp decoded with ⟨decoded, _⟩
      injection assigned with _ cursor
      injection cursor with _ gotEq
      rw [gotEq, same] at decoded
      exact decode_fits decoded
  | .enum _ _, _, _, _, _, _, _, _, _, _ => by simp only [Elem.InLimits]
  | .cls _ body, v, d, got, buf, whole, off', inside, run, same => by
      simp only [Elem.serialize, Elem.deserializeAt, Elem.Agrees, Elem.InLimits]
        at inside run same ⊢
      exact Members.inLimits_of_agrees body v d got buf whole off' inside run same

theorem Members.inLimits_of_agrees : (ms : Members) → (v d got : ms.Impl) →
    (buf whole : Bytes) → (off' : Nat) → Members.serialize ms v buf <+: whole →
    Members.deserializeAt whole ms ⟨buf.length, d⟩ = .ok () ⟨off', got⟩ → ms.Agrees got v →
    Members.InLimits ms v
  | .nil, _, _, _, _, _, _, _, _, _ => by simp only [Members.InLimits]
  | .base _ body rest, v, d, got, buf, whole, off', inside, run, same => by
      simp only [Members.serialize, Members.deserializeAt, Members.Agrees, Members.InLimits]
        at inside run same ⊢
      rcases both_eq_ok.mp run with ⟨mid, head, tail⟩
      have within := (Members.serialize_extends rest v.2 _).trans inside
      have first := Members.inLimits_of_agrees body v.1 d.1 got.1 buf whole mid within head same.1
      have exact' := Members.deserializeAt_serialize body v.1 d.1 buf whole first within
      rw [exact'] at head
      injection head with _ cursor
      injection cursor with stop _
      rw [← stop] at tail
      exact ⟨first, Members.inLimits_of_agrees rest v.2 d.2 got.2 _ whole off' inside tail same.2⟩
  | .choice variants rest, v, d, got, buf, whole, off', inside, run, same => by
      simp only [Members.serialize, Members.deserializeAt, Members.Agrees, Members.InLimits]
        at inside run same ⊢
      rcases both_eq_ok.mp run with ⟨mid, head, tail⟩
      rcases same with ⟨_, stores, others⟩
      have within := (Members.serialize_extends rest v.2 _).trans inside
      have header := decodeUint32_encode
        ((Variants.serialize_extends variants _ 1 v.1.store _).trans within)
      rw [decodeChoice, bind_ok (position_ok header)] at head
      cases case : Variants.selected variants v.1.ordinal.toNat 1 with
      | none =>
          have noCase : (Variants.selected variants v.1.ordinal.toNat 1).isSome = false := by
            rw [case]
            rfl
          rw [case] at head
          injection head with _ cursor
          injection cursor with stop _
          rw [Variants.serialize_unselected variants v.1.store _ noCase] at inside
          rw [← stop] at tail
          exact ⟨Variants.inLimits_unselected variants noCase v.1.store,
            Members.inLimits_of_agrees rest v.2 d.2 got.2 _ whole off' inside tail others⟩
      | some generated =>
          have isCase : (Variants.selected variants v.1.ordinal.toNat 1).isSome := by
            rw [case]
            rfl
          rw [case] at head
          rcases (chooseAnd_eq_ok generated v.1.ordinal).mp head with ⟨filled, _⟩
          have first := Variants.inLimits_of_agrees variants _ 1 v.1.store d.1.store got.1.store
            _ whole mid isCase within filled stores
          have exact' := Variants.deserializeAt_serialize variants _ 1 v.1.store d.1.store _ whole
            isCase first within
          rw [exact'] at filled
          injection filled with _ cursor
          injection cursor with stop _
          rw [← stop] at tail
          exact ⟨first,
            Members.inLimits_of_agrees rest v.2 d.2 got.2 _ whole off' inside tail others⟩
  | .required _ elem rest, v, d, got, buf, whole, off', inside, run, same => by
      simp only [Members.serialize, Members.deserializeAt, Members.Agrees, Members.InLimits]
        at inside run same ⊢
      rcases both_eq_ok.mp run with ⟨mid, head, tail⟩
      have within := (Members.serialize_extends rest v.2 _).trans inside
      have first := Elem.inLimits_of_agrees elem v.1 d.1 got.1 buf whole mid within head same.1
      have exact' := Elem.deserializeAt_serialize elem v.1 d.1 buf whole first within
      rw [exact'] at head
      injection head with _ cursor
      injection cursor with stop _
      rw [← stop] at tail
      exact ⟨first, Members.inLimits_of_agrees rest v.2 d.2 got.2 _ whole off' inside tail same.2⟩
  | .optional _ elem rest, v, d, got, buf, whole, off', inside, run, same => by
      simp only [Members.serialize, Members.deserializeAt, Members.Agrees, Members.InLimits]
        at inside run same ⊢
      rcases both_eq_ok.mp run with ⟨mid, head, tail⟩
      rcases same with ⟨_, values, others⟩
      have within := (Members.serialize_extends rest v.2 _).trans inside
      cases present : v.1.has with
      | false =>
          simp only [present, Bool.false_eq_true, if_false] at inside within
          have flag : decodeOptionalFlag whole buf.length =
              .ok false (encodeOptionalFlag buf false).length :=
            decode_encode .bool trivial within
          rw [decodeOptional, bind_ok (position_ok flag)] at head
          injection head with _ cursor
          injection cursor with stop _
          rw [← stop] at tail
          exact ⟨fun yes => absurd yes (by simp),
            Members.inLimits_of_agrees rest v.2 d.2 got.2 _ whole off' inside tail others⟩
      | true =>
          simp only [present, if_true] at inside within
          have flag : decodeOptionalFlag whole buf.length =
              .ok true (encodeOptionalFlag buf true).length :=
            decode_encode .bool trivial ((Elem.serialize_extends elem v.1.value _).trans within)
          rw [decodeOptional, bind_ok (position_ok flag)] at head
          rcases (enableAnd_eq_ok _).mp head with ⟨filled, _⟩
          have first := Elem.inLimits_of_agrees elem v.1.value d.1.value got.1.value _ whole mid
            within filled (values present)
          have exact' := Elem.deserializeAt_serialize elem v.1.value d.1.value _ whole first within
          rw [exact'] at filled
          injection filled with _ cursor
          injection cursor with stop _
          rw [← stop] at tail
          exact ⟨fun _ => first,
            Members.inLimits_of_agrees rest v.2 d.2 got.2 _ whole off' inside tail others⟩
  | .list _ _ elem rest, v, d, got, buf, whole, off', inside, run, same => by
      simp only [Members.serialize, Members.deserializeAt, Members.Agrees, Members.InLimits]
        at inside run same ⊢
      rcases both_eq_ok.mp run with ⟨mid, head, tail⟩
      have grows := fun buf item => Elem.serialize_extends elem item buf
      have within := (Members.serialize_extends rest v.2 _).trans inside
      have header : decodeSequenceLength whole buf.length = .ok (UInt32.ofNat v.1.items.length)
          (encodeSequenceLength buf (UInt32.ofNat v.1.items.length)).length :=
        decodeUint32_encode ((foldl_extends _ grows v.1.items _).trans within)
      have loop := head
      rw [decodeList, bind_ok (position_ok header), bind_ok (assign_run _ _)] at loop
      rcases times_pushItem_items loop with ⟨added, items, size⟩
      have shown : List.Forall₂ elem.Agrees added v.1.items := by
        have whole' := same.1
        rw [items] at whole'
        simpa [AccessorList.clear] using whole'
      have count : (UInt32.ofNat v.1.items.length).toNat = v.1.items.length :=
        size.symm.trans shown.length_eq
      have short : v.1.items.length < 2 ^ 32 := by
        rw [← count]
        exact UInt32.toNat_lt _
      rw [count] at loop
      have each := times_pushItem_limits (fun buf item => Elem.serialize elem item buf)
        elem.Agrees (Elem.InLimits elem) (fun item => Elem.overwrite elem item elem.fresh)
        grows v.1.items
        (fun made item => (elem.copy_agrees_iff elem.fresh made item).mp)
        (fun item member buf off' made inside filled =>
          Elem.inLimits_of_agrees elem item elem.fresh made buf whole off' inside filled)
        (fun item member buf inside limits =>
          Elem.deserializeAt_serialize elem item elem.fresh buf whole limits inside)
        within loop items shown
      have first := decodeList_run (fun buf item => Elem.serialize elem item buf)
        (elem.copy elem.fresh) (fun item => Elem.overwrite elem item elem.fresh) grows v.1 d.1 short
        (fun item member buf inside => Elem.deserializeAt_serialize elem item elem.fresh buf whole
          (each item member) inside) buf within
      rw [first] at head
      injection head with _ cursor
      injection cursor with stop _
      rw [← stop] at tail
      exact ⟨⟨short, each⟩,
        Members.inLimits_of_agrees rest v.2 d.2 got.2 _ whole off' inside tail same.2⟩

theorem Variants.inLimits_of_agrees : (vs : Variants) → (ordinal index : Nat) →
    (v d got : vs.Impl) → (buf whole : Bytes) → (off' : Nat) →
    (Variants.selected vs ordinal index).isSome →
    Variants.serialize vs ordinal index v buf <+: whole →
    Variants.deserializeAt whole vs ordinal index ⟨buf.length, d⟩ = .ok () ⟨off', got⟩ →
    vs.Agrees ordinal index got v → Variants.InLimits vs ordinal index v
  | .nil, _, _, _, _, _, _, _, _, _, _, _, _ => by simp only [Variants.InLimits]
  | .cons _ elem rest, ordinal, index, v, d, got, buf, whole, off', isCase, inside, run, same => by
      simp only [Variants.selected] at isCase
      simp only [Variants.serialize, Variants.deserializeAt, Variants.Agrees, Variants.InLimits]
        at inside run same ⊢
      by_cases here : ordinal = index
      · simp only [if_pos here] at inside run
        rw [Variants.serialize_past rest v.2 _ (by omega)] at inside
        rcases onFst_eq_ok.mp run with ⟨filled, _⟩
        exact ⟨fun _ => Elem.inLimits_of_agrees elem v.1 d.1 got.1 buf whole off' inside filled
            (same.1 here),
          Variants.inLimits_past rest (by omega) v.2⟩
      · simp only [if_neg here] at isCase inside run
        rcases onSnd_eq_ok.mp run with ⟨filled, _⟩
        exact ⟨fun chosen => absurd chosen here,
          Variants.inLimits_of_agrees rest ordinal (index + 1) v.2 d.2 got.2 buf whole off' isCase
            inside filled same.2⟩
end

theorem Elem.roundTrip_agrees_iff (e : Elem) (v d : e.Impl) :
    (∃ off got, Elem.deserializeAt (Elem.serialize e v []) e ⟨0, d⟩ = .ok () ⟨off, got⟩ ∧
      e.Agrees got v) ↔ Elem.InLimits e v ∧ Elem.NoStale e v d := by
  constructor
  · intro given
    rcases given with ⟨off, got, run, same⟩
    have limits := Elem.inLimits_of_agrees e v d got [] _ off (List.prefix_refl _) run same
    have exact' := Elem.deserializeAt_serialize e v d [] _ limits (List.prefix_refl _)
    rw [List.length_nil, run] at exact'
    injection exact' with _ cursor
    injection cursor with _ gotEq
    subst gotEq
    exact ⟨limits, (Elem.overwrite_agrees_iff e v d).mp same⟩
  · intro given
    rcases given with ⟨limits, clean⟩
    have run := Elem.deserializeAt_serialize e v d [] _ limits (List.prefix_refl _)
    exact ⟨_, Elem.overwrite e v d, run, (Elem.overwrite_agrees_iff e v d).mpr clean⟩

namespace CdrExternalizer

variable {schema : SchemaModel}

def rethrow (context : String) (e : Exc) : Exc :=
  if e.isRuntimeError then .uciException (utf8 context ++ e.what) else e

def write (reg : CdrRegistry) (type : Accessor schema) (vec : Bytes) : Except Exc Bytes :=
  let written := do
    let handler ← reg.lookupByTag type.getAccessorType
    serialize handler type vec
  match written with
  | .ok more => .ok more
  | .error e => .error (rethrow "CdrExternalizer::write: " e)

/-- The accessor comes back as it is left, also after a throw. -/
def read (reg : CdrRegistry) (vec : Bytes) (type : Accessor schema) :
    Except Exc Unit × Accessor schema :=
  match reg.lookupByTag type.getAccessorType with
  | .error e => (.error (rethrow "CdrExternalizer::read: " e), type)
  | .ok handler =>
      match deserializeAt handler vec 0 type with
      | (.ok _, left) => (.ok (), left)
      | (.error e, left) => (.error (rethrow "CdrExternalizer::read: " e), left)

theorem write_run {reg : CdrRegistry} (type : Accessor schema) (vec : Bytes)
    (known : reg.lookupByTag type.getAccessorType = .ok type.typeName) :
    write reg type vec = .ok (Elem.serialize type.elem type.obj vec) := by
  simp only [write, known, bind, Except.bind, serialize_self]

theorem read_eq_ok {reg : CdrRegistry} {typeName : String} {e : Elem}
    (laidOut : layout schema typeName = some e) {vec : Bytes} {d got : e.Impl}
    (known : reg.lookupByTag (fnv1a32 typeName) = .ok typeName) :
    read reg vec ⟨typeName, e, laidOut, d⟩ = (.ok (), ⟨typeName, e, laidOut, got⟩) ↔
      ∃ off, Elem.deserializeAt vec e ⟨0, d⟩ = .ok () ⟨off, got⟩ := by
  have self := deserializeAt_self (⟨typeName, e, laidOut, d⟩ : Accessor schema) vec 0
  simp only at self
  simp only [read, Accessor.getAccessorType, known, self]
  cases run : Elem.deserializeAt vec e ⟨0, d⟩ with
  | ok u stop =>
      rcases stop with ⟨off, obj⟩
      constructor
      · intro same
        have objEq : obj = got := by
          simpa using same
        exact ⟨off, by rw [objEq]⟩
      · intro given
        rcases given with ⟨off', same⟩
        injection same with _ cursor
        injection cursor with _ objEq
        rw [objEq]
  | error error stop => simp

end CdrExternalizer

/-- Reading what was written makes the destination equal to the source exactly when the
source is within the 32-bit limits and the destination holds nothing stale. -/
theorem read_write_agrees_iff {schema : SchemaModel} {reg : CdrRegistry} (wf : WellFormed schema)
    (built : Built schema reg) (typeName : String) {m : TypeModel}
    (found : schema.find typeName = some m) (classy : m.isSimpleRestriction = false) :
    ∃ (e : Elem) (laidOut : layout schema typeName = some e), ∀ v d : e.Impl,
      (∃ (vec : Bytes) (got : e.Impl),
        CdrExternalizer.write reg ⟨typeName, e, laidOut, v⟩ [] = .ok vec ∧
        CdrExternalizer.read reg vec ⟨typeName, e, laidOut, d⟩ =
          (.ok (), ⟨typeName, e, laidOut, got⟩) ∧
        e.Agrees got v) ↔
      Elem.InLimits e v ∧ Elem.NoStale e v d := by
  rcases exists_layout wf found classy with ⟨e, laidOut⟩
  have known := built.lookupByTag found classy
  refine ⟨e, laidOut, ?_⟩
  intro v d
  have written := CdrExternalizer.write_run ⟨typeName, e, laidOut, v⟩ [] known
  rw [← Elem.roundTrip_agrees_iff]
  constructor
  · intro given
    rcases given with ⟨vec, got, write, read, same⟩
    rw [written] at write
    injection write with vecEq
    subst vecEq
    rcases (CdrExternalizer.read_eq_ok laidOut known).mp read with ⟨off, run⟩
    exact ⟨off, got, run, same⟩
  · intro given
    rcases given with ⟨off, got, run, same⟩
    exact ⟨_, got, written, (CdrExternalizer.read_eq_ok laidOut known).mpr ⟨off, run⟩, same⟩

theorem read_write_agrees_header :
    ∃ (vec : Bytes) (got : headerLayout.Impl),
      CdrExternalizer.write sampleRegistry
        ⟨"HeaderType", headerLayout, layout_header, labelledHeader (utf8 "new")⟩ [] = .ok vec ∧
      CdrExternalizer.read sampleRegistry vec
        ⟨"HeaderType", headerLayout, layout_header, labelledHeader (utf8 "old")⟩ =
          (.ok (), ⟨"HeaderType", headerLayout, layout_header, got⟩) ∧
      headerLayout.Agrees got (labelledHeader (utf8 "new")) := by
  obtain ⟨e, laidOut, iff⟩ := read_write_agrees_iff sampleSchema_wellFormed sampleSchema_built
    "HeaderType" rfl rfl
  have same : headerLayout = e := Option.some.inj (layout_header.symm.trans laidOut)
  subst same
  refine (iff _ _).mpr ⟨?_, ?_⟩
  · simp [headerLayout, headerMembers, labelledHeader, Elem.InLimits, Members.InLimits, Fits]
    decide
  · simp [headerLayout, headerMembers, labelledHeader, Elem.NoStale, Members.NoStale]

/-- The label the destination had is still there although the source has none. -/
theorem read_keeps_stale_label :
    ∃ (vec : Bytes) (got : headerLayout.Impl),
      CdrExternalizer.write sampleRegistry
        ⟨"HeaderType", headerLayout, layout_header, unlabelledHeader⟩ [] = .ok vec ∧
      CdrExternalizer.read sampleRegistry vec
        ⟨"HeaderType", headerLayout, layout_header, labelledHeader (utf8 "old")⟩ =
          (.ok (), ⟨"HeaderType", headerLayout, layout_header, got⟩) ∧
      got.2.1.has = true ∧ ¬ headerLayout.Agrees got unlabelledHeader := by
  have known : sampleRegistry.lookupByTag (fnv1a32 "HeaderType") = .ok "HeaderType" := by rfl
  have limits : Elem.InLimits headerLayout unlabelledHeader := by
    simp [headerLayout, headerMembers, unlabelledHeader, Elem.InLimits, Members.InLimits, Fits]
  refine ⟨_, Elem.overwrite headerLayout unlabelledHeader (labelledHeader (utf8 "old")),
    CdrExternalizer.write_run _ [] known,
    (CdrExternalizer.read_eq_ok layout_header known).mpr
      ⟨_, Elem.deserializeAt_serialize headerLayout _ _ [] _ limits (List.prefix_refl _)⟩, rfl, ?_⟩
  intro same
  have clean := (Elem.overwrite_agrees_iff headerLayout _ _).mp same
  simp [headerLayout, headerMembers, unlabelledHeader, labelledHeader, Elem.NoStale,
    Members.NoStale] at clean

end Arcal.Cdr
