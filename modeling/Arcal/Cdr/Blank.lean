import Arcal.Cdr.Externalizer

/-! The classes that store nothing: any bytes there are enough of are decoded into them. For
every other class there are two objects whose bytes are told apart. -/

namespace Arcal.Cdr

open Schema InPlace

mutual
/-- No member anywhere, and no variant in a choice. -/
def Elem.Blank : Elem → Prop
  | .prim _ => False
  | .enum _ _ => False
  | .cls _ body => Members.Blank body

def Members.Blank : Members → Prop
  | .nil => True
  | .base _ body rest => Members.Blank body ∧ Members.Blank rest
  | .choice .nil rest => Members.Blank rest
  | .choice (.cons _ _ _) _ => False
  | .required _ elem rest => Elem.Blank elem ∧ Members.Blank rest
  | .optional _ _ _ => False
  | .list _ _ _ _ => False
end

mutual
/-- The lists of an object, and of the objects it always has, can hold an item. -/
def Elem.Roomy : Elem → Prop
  | .prim _ => True
  | .enum _ _ => True
  | .cls _ body => Members.Roomy body

def Members.Roomy : Members → Prop
  | .nil => True
  | .base _ body rest => Members.Roomy body ∧ Members.Roomy rest
  | .choice _ rest => Members.Roomy rest
  | .required _ elem rest => Elem.Roomy elem ∧ Members.Roomy rest
  | .optional _ _ rest => Members.Roomy rest
  | .list _ maxOccurs _ rest => (∀ limit ∈ maxOccurs, 0 < limit) ∧ Members.Roomy rest
end

section Layout

variable {schema : SchemaModel}

theorem roomy_fieldsOf {refer : String → Option Elem}
    (roomy : ∀ typeName e, refer typeName = some e → Elem.Roomy e) {fields : List FieldModel}
    {ms : Members} (made : fieldsOf refer fields = some ms) : Members.Roomy ms := by
  induction fields generalizing ms with
  | nil =>
      injection made with same
      rw [← same]
      simp only [Members.Roomy]
  | cons field rest ih =>
      simp only [fieldsOf, Option.bind_eq_bind, Option.bind_eq_some_iff, Option.pure_def,
        Option.some.injEq] at made
      rcases made with ⟨elem, referred, others, later, same⟩
      have here : Elem.Roomy elem ∧ Members.Roomy others := ⟨roomy _ _ referred, ih later⟩
      rw [← same]
      split
      · next bounded =>
        simp only [Members.Roomy]
        refine ⟨?_, here.2⟩
        intro limit bound
        have limitEq : field.maxOccursVal.toNat = limit := Option.some.inj bound
        unfold FieldModel.listKind at bounded
        split_ifs at bounded with unbounded many
        · cases bounded
        · omega
      · simp only [Members.Roomy]
        exact ⟨by simp, here.2⟩
      · split_ifs
        · simpa only [Members.Roomy] using here
        · simpa only [Members.Roomy] using here.2
        · simpa only [Members.Roomy] using here

theorem roomy_choicesOf {refer : String → Option Elem} {choices : List ChoiceModel}
    {rest ms : Members} (made : choicesOf refer choices rest = some ms)
    (roomy : Members.Roomy rest) : Members.Roomy ms := by
  match choices with
  | [] =>
      injection made with same
      rw [← same]
      exact roomy
  | [choice] =>
      simp only [choicesOf, Option.map_eq_some_iff] at made
      rcases made with ⟨vs, _, same⟩
      rw [← same]
      simpa only [Members.Roomy] using roomy
  | _ :: _ :: _ => cases made

theorem roomy_generatedAt (depth : Nat) {m : TypeModel} {e : Elem}
    (made : generatedAt schema depth m = some e) : Elem.Roomy e := by
  induction depth using Nat.strong_induction_on generalizing m e with
  | _ depth ih =>
      rcases generatedAt_cases made with ⟨_, _, rfl⟩ |
        ⟨below, _, _, _, _, _, _, rfl, _, ownMade, chosenMade, bodyMade, rfl⟩
      · simp only [Elem.Roomy]
      · have references : ∀ typeName elem,
            reference schema (generatedAt schema below) typeName = some elem →
              Elem.Roomy elem := by
          intro typeName elem referred
          rcases reference_cases referred with ⟨_, rfl⟩ | ⟨_, _, generated⟩
          · simp only [Elem.Roomy]
          · exact ih below (Nat.lt_succ_self below) generated
        have front := roomy_choicesOf chosenMade (roomy_fieldsOf references ownMade)
        rcases baseOf_cases bodyMade with rfl | ⟨_, _, _, _, _, _, generated, rfl⟩
        · simpa only [Elem.Roomy] using front
        · have inner := ih below (Nat.lt_succ_self below) generated
          simp only [Elem.Roomy] at inner
          simp only [Elem.Roomy, Members.Roomy]
          exact ⟨inner, front⟩

theorem roomy_layout {typeName : String} {e : Elem} (laidOut : layout schema typeName = some e) :
    Elem.Roomy e := by
  unfold layout at laidOut
  rcases Option.bind_eq_some_iff.mp laidOut with ⟨m, _, made⟩
  exact roomy_generatedAt _ made

end Layout

mutual
theorem Elem.inLimits_fresh : (e : Elem) → Elem.InLimits e e.fresh
  | .prim t => by
      simp only [Elem.InLimits, Elem.fresh]
      cases t with
      | string => exact (by decide : 0 + 1 < 2 ^ 32)
      | bytes => exact (by decide : 0 < 2 ^ 32)
      | _ => trivial
  | .enum _ _ => by simp only [Elem.InLimits]
  | .cls _ body => by
      simp only [Elem.InLimits, Elem.fresh]
      exact Members.inLimits_fresh body

theorem Members.inLimits_fresh : (ms : Members) → Members.InLimits ms ms.fresh
  | .nil => by simp only [Members.InLimits]
  | .base _ body rest => by
      simp only [Members.InLimits, Members.fresh]
      exact ⟨Members.inLimits_fresh body, Members.inLimits_fresh rest⟩
  | .choice variants rest => by
      simp only [Members.InLimits, Members.fresh]
      exact ⟨Variants.inLimits_past variants (by decide) _, Members.inLimits_fresh rest⟩
  | .required _ elem rest => by
      simp only [Members.InLimits, Members.fresh]
      exact ⟨Elem.inLimits_fresh elem, Members.inLimits_fresh rest⟩
  | .optional _ elem rest => by
      simp only [Members.InLimits, Members.fresh]
      exact ⟨nofun, Members.inLimits_fresh rest⟩
  | .list _ _ elem rest => by
      simp only [Members.InLimits, Members.fresh, AccessorList.clear]
      exact ⟨⟨by simp, nofun⟩, Members.inLimits_fresh rest⟩
end

theorem exists_values (t : CxxType) : ∃ v w : t.Value, Fits t v ∧ Fits t w ∧ v ≠ w := by
  cases t with
  | bool => exact ⟨false, true, trivial, trivial, by decide⟩
  | int8 => exact ⟨(0 : Int8), (1 : Int8), trivial, trivial, by decide⟩
  | uint8 => exact ⟨(0 : UInt8), (1 : UInt8), trivial, trivial, by decide⟩
  | int16 => exact ⟨(0 : Int16), (1 : Int16), trivial, trivial, by decide⟩
  | uint16 => exact ⟨(0 : UInt16), (1 : UInt16), trivial, trivial, by decide⟩
  | int32 => exact ⟨(0 : Int32), (1 : Int32), trivial, trivial, by decide⟩
  | uint32 => exact ⟨(0 : UInt32), (1 : UInt32), trivial, trivial, by decide⟩
  | int64 => exact ⟨(0 : Int64), (1 : Int64), trivial, trivial, by decide⟩
  | uint64 => exact ⟨(0 : UInt64), (1 : UInt64), trivial, trivial, by decide⟩
  | float => exact ⟨(0 : UInt32), (1 : UInt32), trivial, trivial, by decide⟩
  | double => exact ⟨(0 : UInt64), (1 : UInt64), trivial, trivial, by decide⟩
  | string =>
      exact ⟨([] : Bytes), ([0] : Bytes), (by decide : 0 + 1 < 2 ^ 32),
        (by decide : 1 + 1 < 2 ^ 32), by decide⟩
  | bytes =>
      exact ⟨([] : Bytes), ([0] : Bytes), (by decide : 0 < 2 ^ 32), (by decide : 1 < 2 ^ 32),
        by decide⟩
  | uuid =>
      exact ⟨UUID.nil, ⟨List.replicate 16 1, List.length_replicate⟩, trivial, trivial, by decide⟩

mutual
theorem Elem.exists_apart : (e : Elem) → Elem.Roomy e → ¬ Elem.Blank e →
    ∃ v w, Elem.InLimits e v ∧ Elem.InLimits e w ∧
      Elem.overwrite e v e.fresh ≠ Elem.overwrite e w e.fresh
  | .prim t, _, _ => by
      simp only [Elem.InLimits, Elem.overwrite]
      exact exists_values t
  | .enum _ _, _, _ => by
      simp only [Elem.InLimits, Elem.overwrite]
      exact ⟨(0 : UInt32), (1 : UInt32), trivial, trivial, (by decide : (0 : UInt32) ≠ 1)⟩
  | .cls _ body, roomy, stores => by
      simp only [Elem.Roomy, Elem.Blank, Elem.InLimits, Elem.overwrite, Elem.fresh]
        at roomy stores ⊢
      exact Members.exists_apart body roomy stores

theorem Members.exists_apart : (ms : Members) → Members.Roomy ms → ¬ Members.Blank ms →
    ∃ v w, Members.InLimits ms v ∧ Members.InLimits ms w ∧
      Members.overwrite ms v ms.fresh ≠ Members.overwrite ms w ms.fresh
  | .nil, _, stores => by
      simp only [Members.Blank, not_true_eq_false] at stores
  | .base _ body rest, roomy, stores => by
      simp only [Members.Roomy, Members.Blank, Members.InLimits, Members.overwrite,
        Members.fresh] at roomy stores ⊢
      by_cases front : Members.Blank body
      · rcases Members.exists_apart rest roomy.2 (fun blank => stores ⟨front, blank⟩) with
          ⟨v, w, fits, fits', apart⟩
        exact ⟨(body.fresh, v), (body.fresh, w), ⟨Members.inLimits_fresh body, fits⟩,
          ⟨Members.inLimits_fresh body, fits'⟩, fun same => apart (congrArg Prod.snd same)⟩
      · rcases Members.exists_apart body roomy.1 front with ⟨v, w, fits, fits', apart⟩
        exact ⟨(v, rest.fresh), (w, rest.fresh), ⟨fits, Members.inLimits_fresh rest⟩,
          ⟨fits', Members.inLimits_fresh rest⟩, fun same => apart (congrArg Prod.fst same)⟩
  | .choice .nil rest, roomy, stores => by
      simp only [Members.Roomy, Members.Blank, Members.InLimits, Members.overwrite,
        Members.fresh] at roomy stores ⊢
      rcases Members.exists_apart rest roomy stores with ⟨v, w, fits, fits', apart⟩
      exact ⟨(⟨0, ()⟩, v), (⟨0, ()⟩, w), ⟨by simp only [Variants.InLimits], fits⟩,
        ⟨by simp only [Variants.InLimits], fits'⟩, fun same => apart (congrArg Prod.snd same)⟩
  | .choice (.cons name elem others) rest, _, _ => by
      simp only [Members.InLimits, Members.overwrite, Members.fresh]
      have none' : (0 : UInt32).toNat < 1 := by decide
      refine ⟨(⟨0, (Variants.cons name elem others).fresh⟩, rest.fresh),
        (⟨1, (Variants.cons name elem others).fresh⟩, rest.fresh),
        ⟨Variants.inLimits_past _ none' _, Members.inLimits_fresh rest⟩,
        ⟨?_, Members.inLimits_fresh rest⟩, ?_⟩
      · have first : (1 : UInt32).toNat < 2 := by decide
        simp only [Variants.InLimits, Variants.fresh]
        exact ⟨fun _ => Elem.inLimits_fresh elem, Variants.inLimits_past others first _⟩
      · intro same
        have ordinals := congrArg (fun pair => pair.1.ordinal) same
        have chosen : (Variants.selected (.cons name elem others) (1 : UInt32).toNat 1).isSome =
            true := by simp [Variants.selected]
        dsimp only at ordinals
        rw [if_pos chosen] at ordinals
        split at ordinals
        · cases ordinals
        · cases ordinals
  | .required _ elem rest, roomy, stores => by
      simp only [Members.Roomy, Members.Blank, Members.InLimits, Members.overwrite,
        Members.fresh] at roomy stores ⊢
      by_cases front : Elem.Blank elem
      · rcases Members.exists_apart rest roomy.2 (fun blank => stores ⟨front, blank⟩) with
          ⟨v, w, fits, fits', apart⟩
        exact ⟨(elem.fresh, v), (elem.fresh, w), ⟨Elem.inLimits_fresh elem, fits⟩,
          ⟨Elem.inLimits_fresh elem, fits'⟩, fun same => apart (congrArg Prod.snd same)⟩
      · rcases Elem.exists_apart elem roomy.1 front with ⟨v, w, fits, fits', apart⟩
        exact ⟨(v, rest.fresh), (w, rest.fresh), ⟨fits, Members.inLimits_fresh rest⟩,
          ⟨fits', Members.inLimits_fresh rest⟩, fun same => apart (congrArg Prod.fst same)⟩
  | .optional _ elem rest, _, _ => by
      simp only [Members.InLimits, Members.overwrite, Members.fresh]
      refine ⟨(⟨false, elem.fresh⟩, rest.fresh), (⟨true, elem.fresh⟩, rest.fresh),
        ⟨nofun, Members.inLimits_fresh rest⟩,
        ⟨fun _ => Elem.inLimits_fresh elem, Members.inLimits_fresh rest⟩, ?_⟩
      intro same
      have flags := congrArg (fun pair => pair.1.has) same
      cases flags
  | .list _ maxOccurs elem rest, roomy, _ => by
      simp only [Members.Roomy, Members.InLimits, Members.overwrite, Members.fresh] at roomy ⊢
      have one : ∀ limit ∈ maxOccurs, [elem.fresh].length ≤ limit := roomy.1
      refine ⟨(.clear, rest.fresh), (⟨[elem.fresh], one⟩, rest.fresh),
        ⟨⟨by simp [AccessorList.clear], nofun⟩, Members.inLimits_fresh rest⟩,
        ⟨⟨by simp, ?_⟩, Members.inLimits_fresh rest⟩, ?_⟩
      · intro item member
        rw [List.mem_singleton.mp member]
        exact Elem.inLimits_fresh elem
      · intro same
        have sizes := congrArg (fun pair => pair.1.items.length) same
        cases sizes
end

theorem decodeUint32_room {buf whole : Bytes} (v : UInt32)
    (room : (encodeUint32 buf v).length ≤ whole.length) :
    ∃ u, decodeUint32 whole buf.length = .ok u (encodeUint32 buf v).length := by
  have length : (encodeUint32 buf v).length = (alignBuffer buf 4).length + 4 := by
    simp [encodeUint32]
  rw [length] at room ⊢
  have aligned := alignOffset_run buf (by decide : 1 < 4)
  exact ⟨_, (bind_ok aligned).trans (bind_ok (checkBounds_run room))⟩

theorem encodeUint32_length_mono {buf longer : Bytes} (v w : UInt32)
    (more : buf.length ≤ longer.length) :
    (encodeUint32 buf v).length ≤ (encodeUint32 longer w).length := by
  simp only [encodeUint32, List.length_append, alignBuffer_length, List.length_cons,
    List.length_nil, Words.padding]
  omega

mutual
theorem Elem.blank_length_mono : (e : Elem) → Elem.Blank e → (v w : e.Impl) →
    {buf longer : Bytes} → buf.length ≤ longer.length →
    (Elem.serialize e v buf).length ≤ (Elem.serialize e w longer).length
  | .prim _, blank, _, _, _, _, _ => by simp only [Elem.Blank] at blank
  | .enum _ _, blank, _, _, _, _, _ => by simp only [Elem.Blank] at blank
  | .cls _ body, blank, v, w, _, _, more => by
      simp only [Elem.Blank, Elem.serialize] at blank ⊢
      exact Members.blank_length_mono body blank v w more

theorem Members.blank_length_mono : (ms : Members) → Members.Blank ms → (v w : ms.Impl) →
    {buf longer : Bytes} → buf.length ≤ longer.length →
    (Members.serialize ms v buf).length ≤ (Members.serialize ms w longer).length
  | .nil, _, _, _, _, _, more => by
      simp only [Members.serialize]
      exact more
  | .base _ body rest, blank, v, w, _, _, more => by
      simp only [Members.Blank, Members.serialize] at blank ⊢
      exact Members.blank_length_mono rest blank.2 v.2 w.2
        (Members.blank_length_mono body blank.1 v.1 w.1 more)
  | .choice .nil rest, blank, v, w, _, _, more => by
      simp only [Members.Blank, Members.serialize, Variants.serialize] at blank ⊢
      exact Members.blank_length_mono rest blank v.2 w.2 (encodeUint32_length_mono _ _ more)
  | .choice (.cons _ _ _) _, blank, _, _, _, _, _ => by simp only [Members.Blank] at blank
  | .required _ elem rest, blank, v, w, _, _, more => by
      simp only [Members.Blank, Members.serialize] at blank ⊢
      exact Members.blank_length_mono rest blank.2 v.2 w.2
        (Elem.blank_length_mono elem blank.1 v.1 w.1 more)
  | .optional _ _ _, blank, _, _, _, _, _ => by simp only [Members.Blank] at blank
  | .list _ _ _ _, blank, _, _, _, _, _ => by simp only [Members.Blank] at blank
end

mutual
theorem Elem.blank_deserializeAt : (e : Elem) → Elem.Blank e → (v d : e.Impl) →
    (buf whole : Bytes) → (Elem.serialize e v buf).length ≤ whole.length →
    Elem.deserializeAt whole e ⟨buf.length, d⟩ = .ok () ⟨(Elem.serialize e v buf).length, d⟩
  | .prim _, blank, _, _, _, _, _ => by simp only [Elem.Blank] at blank
  | .enum _ _, blank, _, _, _, _, _ => by simp only [Elem.Blank] at blank
  | .cls _ body, blank, v, d, buf, whole, room => by
      simp only [Elem.Blank, Elem.serialize, Elem.deserializeAt] at blank room ⊢
      exact Members.blank_deserializeAt body blank v d buf whole room

theorem Members.blank_deserializeAt : (ms : Members) → Members.Blank ms → (v d : ms.Impl) →
    (buf whole : Bytes) → (Members.serialize ms v buf).length ≤ whole.length →
    Members.deserializeAt whole ms ⟨buf.length, d⟩ =
      .ok () ⟨(Members.serialize ms v buf).length, d⟩
  | .nil, _, _, _, _, _, _ => by
      simp only [Members.serialize, Members.deserializeAt, pure_run]
  | .base _ body rest, blank, v, d, buf, whole, room => by
      simp only [Members.Blank, Members.serialize, Members.deserializeAt] at blank room ⊢
      have grows := (Members.serialize_extends rest v.2 (Members.serialize body v.1 buf)).length_le
      have first := Members.blank_deserializeAt body blank.1 v.1 d.1 buf whole (by omega)
      have later := Members.blank_deserializeAt rest blank.2 v.2 d.2 _ whole room
      exact (bind_ok (onFst_ok first)).trans (onSnd_ok later)
  | .choice .nil rest, blank, v, d, buf, whole, room => by
      simp only [Members.Blank, Members.serialize, Variants.serialize, Members.deserializeAt]
        at blank room ⊢
      have grows := (Members.serialize_extends rest v.2 (encodeUint32 buf v.1.ordinal)).length_le
      rcases decodeUint32_room v.1.ordinal (Nat.le_trans grows room) with ⟨u, read⟩
      have first : decodeChoice whole (Variants.selected .nil · 1)
          (fun ordinal => Variants.deserializeAt whole .nil ordinal 1) ⟨buf.length, d.1⟩ =
            .ok () ⟨(encodeUint32 buf v.1.ordinal).length, d.1⟩ := by
        rw [decodeChoice, bind_ok (position_ok read)]
        rfl
      have later := Members.blank_deserializeAt rest blank v.2 d.2 _ whole room
      exact (bind_ok (onFst_ok first)).trans (onSnd_ok later)
  | .choice (.cons _ _ _) _, blank, _, _, _, _, _ => by simp only [Members.Blank] at blank
  | .required _ elem rest, blank, v, d, buf, whole, room => by
      simp only [Members.Blank, Members.serialize, Members.deserializeAt] at blank room ⊢
      have grows := (Members.serialize_extends rest v.2 (Elem.serialize elem v.1 buf)).length_le
      have first := Elem.blank_deserializeAt elem blank.1 v.1 d.1 buf whole (by omega)
      have later := Members.blank_deserializeAt rest blank.2 v.2 d.2 _ whole room
      exact (bind_ok (onFst_ok first)).trans (onSnd_ok later)
  | .optional _ _ _, blank, _, _, _, _, _ => by simp only [Members.Blank] at blank
  | .list _ _ _ _, blank, _, _, _, _, _ => by simp only [Members.Blank] at blank
end

end Arcal.Cdr
