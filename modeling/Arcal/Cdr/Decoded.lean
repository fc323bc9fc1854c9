import Arcal.Cdr.Externalizer
import Arcal.Externalizer.Copy

/-! What the decoder makes of any bytes at all is something the encoder can say: it fits the
32-bit limits and has no undeclared choice. So encoding it again gives bytes that decode to
the same and that nothing changes from then on. -/

namespace Arcal.Cdr

open Schema InPlace

/-- What comes back from its own encoding. -/
def Elem.Encodable (e : Elem) (v : e.Impl) : Prop :=
  Elem.InLimits e v ∧ Elem.ChoicesDeclared e v

theorem Elem.encodable_iff (e : Elem) (v : e.Impl) : Elem.Encodable e v ↔
    ∃ off got, Elem.deserializeAt (Elem.serialize e v []) e ⟨0, e.fresh⟩ = .ok () ⟨off, got⟩ ∧
      e.Agrees got v := by
  rw [Elem.roundTrip_agrees_iff, Elem.noStale_fresh_iff e v _ e.fresh_isFresh]
  rfl

theorem Elem.Encodable.of_agrees {e : Elem} {v w : e.Impl} (encodable : Elem.Encodable e v)
    (same : e.Agrees w v) : Elem.Encodable e w := by
  obtain ⟨off, got, run, back⟩ := (Elem.encodable_iff e v).mp encodable
  refine (Elem.encodable_iff e w).mpr ⟨off, got, ?_, ?_⟩
  · rw [Elem.serialize_agrees e same]
    exact run
  · exact e.agrees_trans got v w back (e.agrees_symm w v same)

section Pieces

variable {σ : Type}

theorem decodeChoice_ok {buf : Bytes} {selected : Nat → Option Bool}
    {inner : Nat → Decode Exc σ Unit} {off off' : Nat} {slot slot' : ChoiceSlot σ}
    (run : decodeChoice buf selected inner ⟨off, slot⟩ = .ok () ⟨off', slot'⟩) :
    slot' = slot ∨ (selected slot'.ordinal.toNat).isSome ∧
      ∃ mid, inner slot'.ordinal.toNat ⟨mid, slot.store⟩ = .ok () ⟨off', slot'.store⟩ := by
  obtain ⟨ordinal, ⟨mid, obj⟩, read, rest⟩ := bind_eq_ok.mp run
  obtain ⟨_, same⟩ := position_eq_ok.mp read
  change obj = slot at same
  subst same
  cases chosen : selected ordinal.toNat with
  | none =>
      rw [chosen] at rest
      injection rest with _ stop
      injection stop with _ kept
      exact .inl kept.symm
  | some generated =>
      rw [chosen] at rest
      obtain ⟨filled, isOrdinal⟩ := (chooseAnd_eq_ok generated ordinal).mp rest
      refine .inr ⟨?_, mid, ?_⟩
      · rw [isOrdinal, chosen]
        rfl
      · rw [isOrdinal]
        exact filled

theorem decodeOptional_ok {buf : Bytes} {generated : Bool} {inner : Decode Exc σ Unit}
    {off off' : Nat} {slot slot' : OptSlot σ}
    (run : decodeOptional buf generated inner ⟨off, slot⟩ = .ok () ⟨off', slot'⟩) :
    slot' = slot ∨ ∃ mid, inner ⟨mid, slot.value⟩ = .ok () ⟨off', slot'.value⟩ := by
  obtain ⟨present, ⟨mid, obj⟩, read, rest⟩ := bind_eq_ok.mp run
  obtain ⟨_, same⟩ := position_eq_ok.mp read
  change obj = slot at same
  subst same
  cases present with
  | false =>
      injection rest with _ stop
      injection stop with _ kept
      exact .inl kept.symm
  | true =>
      obtain ⟨filled, _⟩ := (enableAnd_eq_ok generated).mp rest
      exact .inr ⟨mid, filled⟩

variable {maxOccurs : Option Nat} {fresh : σ} {copy : σ → σ} {inner : Decode Exc σ Unit}

theorem times_pushItem_all {holds : σ → Prop}
    (each : ∀ off off' made, inner ⟨off, fresh⟩ = .ok () ⟨off', made⟩ → holds (copy made))
    {count off off' : Nat} {list longer : AccessorList maxOccurs σ}
    (before : ∀ item ∈ list.items, holds item)
    (run : times (pushItem fresh copy inner) count ⟨off, list⟩ = .ok () ⟨off', longer⟩) :
    ∀ item ∈ longer.items, holds item := by
  induction count generalizing off list with
  | zero =>
      injection run with _ stop
      injection stop with _ same
      rw [← same]
      exact before
  | succ count ih =>
      obtain ⟨_, ⟨mid, pushed⟩, first, rest⟩ := bind_eq_ok.mp run
      obtain ⟨made, filled, push⟩ := pushItem_eq_ok.mp first
      refine ih ?_ rest
      intro item inside
      rw [AccessorList.pushBack_items push, List.mem_append, List.mem_singleton] at inside
      cases inside with
      | inl earlier => exact before item earlier
      | inr last =>
          rw [last]
          exact each off mid made filled

theorem decodeList_ok {buf : Bytes} {holds : σ → Prop}
    (each : ∀ off off' made, inner ⟨off, fresh⟩ = .ok () ⟨off', made⟩ → holds (copy made))
    {off off' : Nat} {list list' : AccessorList maxOccurs σ}
    (run : decodeList buf fresh copy inner ⟨off, list⟩ = .ok () ⟨off', list'⟩) :
    list'.items.length < 2 ^ 32 ∧ ∀ item ∈ list'.items, holds item := by
  obtain ⟨count, ⟨mid, obj⟩, read, rest⟩ := bind_eq_ok.mp run
  rw [bind_ok (assign_run _ _)] at rest
  obtain ⟨added, items, size⟩ := times_pushItem_items rest
  constructor
  · rw [items]
    change ([] ++ added).length < 2 ^ 32
    rw [List.nil_append, size]
    exact UInt32.toNat_lt count
  · refine times_pushItem_all each ?_ rest
    intro item inside
    cases inside

end Pieces

theorem Variants.choicesDeclared_past (vs : Variants) {ordinal index : Nat}
    (past : ordinal < index) (v : vs.Impl) : Variants.ChoicesDeclared vs ordinal index v := by
  cases vs with
  | nil => simp only [Variants.ChoicesDeclared]
  | cons _ elem rest =>
      simp only [Variants.ChoicesDeclared]
      exact ⟨fun chosen => absurd chosen (by omega),
        Variants.choicesDeclared_past rest (by omega) v.2⟩

mutual
/-- Whatever bytes were decoded into a new object, the object can be encoded. -/
theorem Elem.decoded_encodable (buf : Bytes) : (e : Elem) → {off off' : Nat} → {d v : e.Impl} →
    e.IsFresh d → Elem.deserializeAt buf e ⟨off, d⟩ = .ok () ⟨off', v⟩ →
    Elem.InLimits e v ∧ Elem.ChoicesDeclared e v
  | .prim t, off, off', d, v, _, run => by
      simp only [Elem.deserializeAt, Elem.InLimits, Elem.ChoicesDeclared] at run ⊢
      obtain ⟨made, mid, read, assigned⟩ := bind_eq_ok.mp run
      obtain ⟨decoded, _⟩ := position_eq_ok.mp read
      injection assigned with _ stop
      injection stop with _ same
      rw [← same]
      exact ⟨decode_fits decoded, trivial⟩
  | .enum _ _, _, _, _, _, _, _ => by simp only [Elem.InLimits, Elem.ChoicesDeclared, and_self]
  | .cls _ body, off, off', d, v, fresh, run => by
      simp only [Elem.IsFresh, Elem.deserializeAt, Elem.InLimits, Elem.ChoicesDeclared]
        at fresh run ⊢
      exact Members.decoded_encodable buf body fresh run

theorem Members.decoded_encodable (buf : Bytes) : (ms : Members) → {off off' : Nat} →
    {d v : ms.Impl} → ms.IsFresh d →
    Members.deserializeAt buf ms ⟨off, d⟩ = .ok () ⟨off', v⟩ →
    Members.InLimits ms v ∧ Members.ChoicesDeclared ms v
  | .nil, _, _, _, _, _, _ => by
      simp only [Members.InLimits, Members.ChoicesDeclared, and_self]
  | .base _ body rest, off, off', d, v, fresh, run => by
      simp only [Members.IsFresh, Members.deserializeAt, Members.InLimits,
        Members.ChoicesDeclared] at fresh run ⊢
      obtain ⟨mid, head, tail⟩ := both_eq_ok.mp run
      have first := Members.decoded_encodable buf body fresh.1 head
      have others := Members.decoded_encodable buf rest fresh.2 tail
      exact ⟨⟨first.1, others.1⟩, first.2, others.2⟩
  | .choice variants rest, off, off', d, v, fresh, run => by
      simp only [Members.IsFresh, Members.deserializeAt, Members.InLimits,
        Members.ChoicesDeclared] at fresh run ⊢
      obtain ⟨mid, head, tail⟩ := both_eq_ok.mp run
      have others := Members.decoded_encodable buf rest fresh.2.2 tail
      cases decodeChoice_ok head with
      | inl kept =>
          -- A new object has chosen nothing, and the ordinal 0 stands before every variant.
          have none' : v.1.ordinal = 0 := by rw [kept, fresh.1]
          have past : v.1.ordinal.toNat < 1 := by
            rw [none']
            decide
          exact ⟨⟨Variants.inLimits_past variants past v.1.store, others.1⟩, .inl none',
            Variants.choicesDeclared_past variants past v.1.store, others.2⟩
      | inr chosen =>
          obtain ⟨declared, start, filled⟩ := chosen
          have first := Variants.decoded_encodable buf variants _ 1 fresh.2.1 filled
          exact ⟨⟨first.1, others.1⟩, .inr declared, first.2, others.2⟩
  | .required _ elem rest, off, off', d, v, fresh, run => by
      simp only [Members.IsFresh, Members.deserializeAt, Members.InLimits,
        Members.ChoicesDeclared] at fresh run ⊢
      obtain ⟨mid, head, tail⟩ := both_eq_ok.mp run
      have first := Elem.decoded_encodable buf elem fresh.1 head
      have others := Members.decoded_encodable buf rest fresh.2 tail
      exact ⟨⟨first.1, others.1⟩, first.2, others.2⟩
  | .optional _ elem rest, off, off', d, v, fresh, run => by
      simp only [Members.IsFresh, Members.deserializeAt, Members.InLimits,
        Members.ChoicesDeclared] at fresh run ⊢
      obtain ⟨mid, head, tail⟩ := both_eq_ok.mp run
      have others := Members.decoded_encodable buf rest fresh.2.2 tail
      cases decodeOptional_ok head with
      | inl kept =>
          have absent : v.1.has = false := by rw [kept, fresh.1]
          simp only [absent, Bool.false_eq_true, false_implies, true_and]
          exact others
      | inr filled =>
          obtain ⟨start, filled⟩ := filled
          have first := Elem.decoded_encodable buf elem fresh.2.1 filled
          exact ⟨⟨fun _ => first.1, others.1⟩, fun _ => first.2, others.2⟩
  | .list _ _ elem rest, off, off', d, v, fresh, run => by
      simp only [Members.IsFresh, Members.deserializeAt, Members.InLimits,
        Members.ChoicesDeclared] at fresh run ⊢
      obtain ⟨mid, head, tail⟩ := both_eq_ok.mp run
      have others := Members.decoded_encodable buf rest fresh.2 tail
      have each : ∀ off off' made,
          Elem.deserializeAt buf elem ⟨off, elem.fresh⟩ = .ok () ⟨off', made⟩ →
          Elem.Encodable elem (elem.copy elem.fresh made) := by
        intro off off' made filled
        have item : Elem.Encodable elem made :=
          Elem.decoded_encodable buf elem elem.fresh_isFresh filled
        exact item.of_agrees (elem.copy_agrees elem.fresh made)
      obtain ⟨short, all⟩ := decodeList_ok each head
      exact ⟨⟨⟨short, fun item inside => (all item inside).1⟩, others.1⟩,
        fun item inside => (all item inside).2, others.2⟩

theorem Variants.decoded_encodable (buf : Bytes) : (vs : Variants) → (ordinal index : Nat) →
    {off off' : Nat} → {d v : vs.Impl} → vs.IsFresh d →
    Variants.deserializeAt buf vs ordinal index ⟨off, d⟩ = .ok () ⟨off', v⟩ →
    Variants.InLimits vs ordinal index v ∧ Variants.ChoicesDeclared vs ordinal index v
  | .nil, _, _, _, _, _, _, _, _ => by
      simp only [Variants.InLimits, Variants.ChoicesDeclared, and_self]
  | .cons _ elem rest, ordinal, index, off, off', d, v, fresh, run => by
      simp only [Variants.IsFresh, Variants.deserializeAt, Variants.InLimits,
        Variants.ChoicesDeclared] at fresh run ⊢
      by_cases here : ordinal = index
      · rw [if_pos here] at run
        obtain ⟨filled, _⟩ := onFst_eq_ok.mp run
        have first := Elem.decoded_encodable buf elem fresh.1 filled
        exact ⟨⟨fun _ => first.1, Variants.inLimits_past rest (by omega) v.2⟩,
          fun _ => first.2, Variants.choicesDeclared_past rest (by omega) v.2⟩
      · rw [if_neg here] at run
        obtain ⟨filled, _⟩ := onSnd_eq_ok.mp run
        have others := Variants.decoded_encodable buf rest ordinal (index + 1) fresh.2 filled
        exact ⟨⟨fun chosen => absurd chosen here, others.1⟩,
          fun chosen => absurd chosen here, others.2⟩
end

end Arcal.Cdr
