import Arcal.Json.Tree
import Arcal.Lib.JsonRefusal

/-! What an object shows, value by value. A property of JSON values that is decided by their
parts holds of an object's tree exactly when it holds of everything the object shows. -/

namespace Arcal.Json

open Schema
open JsonText (Value)

variable (fp : Floating)

mutual
theorem Members.pairs_keys : (ms : Members) → (v : ms.Impl) →
    ∀ member ∈ Members.pairs fp ms v, ∃ name ∈ Members.keys ms, member.1 = utf8 name
  | .nil, _ => by simp [Members.pairs]
  | .base _ body rest, v => by
      intro member inside
      simp only [Members.pairs, List.mem_append] at inside
      simp only [Members.keys, List.mem_append]
      rcases inside with first | later
      · rcases Members.pairs_keys body v.1 member first with ⟨name, key, same⟩
        exact ⟨name, .inl key, same⟩
      · rcases Members.pairs_keys rest v.2 member later with ⟨name, key, same⟩
        exact ⟨name, .inr key, same⟩
  | .choice variants rest, v => by
      intro member inside
      simp only [Members.pairs, List.mem_append] at inside
      simp only [Members.keys, List.mem_append]
      rcases inside with first | later
      · rcases Variants.pairs_keys variants _ 1 v.1.store member first with ⟨name, key, same⟩
        exact ⟨name, .inl key, same⟩
      · rcases Members.pairs_keys rest v.2 member later with ⟨name, key, same⟩
        exact ⟨name, .inr key, same⟩
  | .required own elem rest, v => by
      intro member inside
      simp only [Members.pairs, List.mem_cons] at inside
      simp only [Members.keys, List.mem_cons]
      rcases inside with first | later
      · exact ⟨own, .inl rfl, by rw [first]⟩
      · rcases Members.pairs_keys rest v.2 member later with ⟨name, key, same⟩
        exact ⟨name, .inr key, same⟩
  | .optional own elem rest, v => by
      intro member inside
      simp only [Members.pairs, List.mem_append] at inside
      simp only [Members.keys, List.mem_cons]
      rcases inside with first | later
      · split at first
        · rw [List.mem_singleton] at first
          exact ⟨own, .inl rfl, by rw [first]⟩
        · cases first
      · rcases Members.pairs_keys rest v.2 member later with ⟨name, key, same⟩
        exact ⟨name, .inr key, same⟩
  | .list own _ elem rest, v => by
      intro member inside
      simp only [Members.pairs, List.mem_cons] at inside
      simp only [Members.keys, List.mem_cons]
      rcases inside with first | later
      · exact ⟨own, .inl rfl, by rw [first]⟩
      · rcases Members.pairs_keys rest v.2 member later with ⟨name, key, same⟩
        exact ⟨name, .inr key, same⟩

theorem Variants.pairs_keys : (vs : Variants) → (ordinal index : Nat) → (v : vs.Impl) →
    ∀ member ∈ Variants.pairs fp vs ordinal index v, ∃ name ∈ Variants.keys vs,
      member.1 = utf8 name
  | .nil, _, _, _ => by simp [Variants.pairs]
  | .cons own elem rest, ordinal, index, v => by
      intro member inside
      simp only [Variants.pairs, List.mem_append] at inside
      simp only [Variants.keys, List.mem_cons]
      rcases inside with first | later
      · split at first
        · rw [List.mem_singleton] at first
          exact ⟨own, .inl rfl, by rw [first]⟩
        · cases first
      · rcases Variants.pairs_keys rest ordinal (index + 1) v.2 member later with
          ⟨name, key, same⟩
        exact ⟨name, .inr key, same⟩
end

mutual
/-- The values the object shows meet `leaf`, the enum items it shows meet `item`. -/
def Elem.Shows (leaf : (t : CxxType) → t.Value → Prop) (item : List String → UInt32 → Prop) :
    (e : Elem) → e.Impl → Prop
  | .prim t, v => leaf t v
  | .enum _ enumValues, v => item enumValues v
  | .cls _ body, v => Members.Shows leaf item body v

def Members.Shows (leaf : (t : CxxType) → t.Value → Prop) (item : List String → UInt32 → Prop) :
    (ms : Members) → ms.Impl → Prop
  | .nil, _ => True
  | .base _ body rest, v => Members.Shows leaf item body v.1 ∧ Members.Shows leaf item rest v.2
  | .choice variants rest, v =>
      Variants.Shows leaf item variants v.1.ordinal.toNat 1 v.1.store ∧
        Members.Shows leaf item rest v.2
  | .required _ elem rest, v => Elem.Shows leaf item elem v.1 ∧ Members.Shows leaf item rest v.2
  | .optional _ elem rest, v =>
      (v.1.has = true → Elem.Shows leaf item elem v.1.value) ∧ Members.Shows leaf item rest v.2
  | .list _ _ elem rest, v =>
      (∀ held ∈ v.1.items, Elem.Shows leaf item elem held) ∧ Members.Shows leaf item rest v.2

def Variants.Shows (leaf : (t : CxxType) → t.Value → Prop) (item : List String → UInt32 → Prop) :
    (vs : Variants) → (ordinal index : Nat) → vs.Impl → Prop
  | .nil, _, _, _ => True
  | .cons _ elem rest, ordinal, index, v =>
      (ordinal = index → Elem.Shows leaf item elem v.1) ∧
        Variants.Shows leaf item rest ordinal (index + 1) v.2
end

section Weaker

variable {leaf leaf' : (t : CxxType) → t.Value → Prop} {item item' : List String → UInt32 → Prop}

mutual
theorem Elem.Shows.mono (weaker : ∀ t v, leaf t v → leaf' t v)
    (weakerItem : ∀ enumValues v, item enumValues v → item' enumValues v) : {e : Elem} →
    {v : e.Impl} → Elem.Shows leaf item e v → Elem.Shows leaf' item' e v
  | .prim t, v, shown => by
      simp only [Elem.Shows] at shown ⊢
      exact weaker t v shown
  | .enum _ enumValues, v, shown => by
      simp only [Elem.Shows] at shown ⊢
      exact weakerItem enumValues v shown
  | .cls _ _, _, shown => by
      simp only [Elem.Shows] at shown ⊢
      exact Members.Shows.mono weaker weakerItem shown

theorem Members.Shows.mono (weaker : ∀ t v, leaf t v → leaf' t v)
    (weakerItem : ∀ enumValues v, item enumValues v → item' enumValues v) : {ms : Members} →
    {v : ms.Impl} → Members.Shows leaf item ms v → Members.Shows leaf' item' ms v
  | .nil, _, _ => by simp only [Members.Shows]
  | .base _ _ _, _, shown => by
      simp only [Members.Shows] at shown ⊢
      exact ⟨Members.Shows.mono weaker weakerItem shown.1,
        Members.Shows.mono weaker weakerItem shown.2⟩
  | .choice _ _, _, shown => by
      simp only [Members.Shows] at shown ⊢
      exact ⟨Variants.Shows.mono weaker weakerItem shown.1,
        Members.Shows.mono weaker weakerItem shown.2⟩
  | .required _ _ _, _, shown => by
      simp only [Members.Shows] at shown ⊢
      exact ⟨Elem.Shows.mono weaker weakerItem shown.1,
        Members.Shows.mono weaker weakerItem shown.2⟩
  | .optional _ _ _, _, shown => by
      simp only [Members.Shows] at shown ⊢
      exact ⟨fun present => Elem.Shows.mono weaker weakerItem (shown.1 present),
        Members.Shows.mono weaker weakerItem shown.2⟩
  | .list _ _ _ _, _, shown => by
      simp only [Members.Shows] at shown ⊢
      exact ⟨fun held member => Elem.Shows.mono weaker weakerItem (shown.1 held member),
        Members.Shows.mono weaker weakerItem shown.2⟩

theorem Variants.Shows.mono (weaker : ∀ t v, leaf t v → leaf' t v)
    (weakerItem : ∀ enumValues v, item enumValues v → item' enumValues v) : {vs : Variants} →
    {ordinal index : Nat} → {v : vs.Impl} → Variants.Shows leaf item vs ordinal index v →
    Variants.Shows leaf' item' vs ordinal index v
  | .nil, _, _, _, _ => by simp only [Variants.Shows]
  | .cons _ _ _, _, _, _, shown => by
      simp only [Variants.Shows] at shown ⊢
      exact ⟨fun chosen => Elem.Shows.mono weaker weakerItem (shown.1 chosen),
        Variants.Shows.mono weaker weakerItem shown.2⟩
end

end Weaker

/-- Decided by the items of an array and by the members of an object. -/
structure Compositional (holds : Value → Prop) : Prop where
  array : ∀ items : List Value, holds (.array items) ↔ ∀ item ∈ items, holds item
  object : ∀ members : List (Bytes × Value), (∀ member ∈ members, Utf8.Valid member.1) →
    (holds (.object members) ↔ ∀ member ∈ members, holds member.2)

section Trees

variable {holds : Value → Prop}

theorem valid_utf8 (s : String) : Utf8.Valid (utf8 s) := ⟨s.toList, rfl⟩

mutual
theorem Elem.holds_tree_iff (parts : Compositional holds) : (e : Elem) → (v : e.Impl) →
    (holds (Elem.tree fp e v) ↔
      Elem.Shows (fun t v => holds (Json.tree fp t v))
        (fun enumValues v => holds (.string (toName enumValues v))) e v)
  | .prim t, v => by simp only [Elem.tree, Elem.Shows]
  | .enum _ enumValues, v => by simp only [Elem.tree, Elem.Shows]
  | .cls _ body, v => by
      have keys : ∀ member ∈ Members.pairs fp body v, Utf8.Valid member.1 := by
        intro member inside
        obtain ⟨name, _, same⟩ := Members.pairs_keys fp body v member inside
        exact same ▸ valid_utf8 name
      simp only [Elem.tree, Elem.Shows]
      rw [parts.object _ keys, Members.holds_pairs_iff parts body v]

theorem Members.holds_pairs_iff (parts : Compositional holds) : (ms : Members) → (v : ms.Impl) →
    ((∀ member ∈ Members.pairs fp ms v, holds member.2) ↔
      Members.Shows (fun t v => holds (Json.tree fp t v))
        (fun enumValues v => holds (.string (toName enumValues v))) ms v)
  | .nil, _ => by simp [Members.pairs, Members.Shows]
  | .base _ body rest, v => by
      simp only [Members.pairs, Members.Shows]
      rw [List.forall_mem_append, Members.holds_pairs_iff parts body v.1,
        Members.holds_pairs_iff parts rest v.2]
  | .choice variants rest, v => by
      simp only [Members.pairs, Members.Shows]
      rw [List.forall_mem_append, Variants.holds_pairs_iff parts variants _ 1 v.1.store,
        Members.holds_pairs_iff parts rest v.2]
  | .required _ elem rest, v => by
      simp only [Members.pairs, Members.Shows]
      rw [List.forall_mem_cons, Elem.holds_tree_iff parts elem v.1,
        Members.holds_pairs_iff parts rest v.2]
  | .optional _ elem rest, v => by
      simp only [Members.pairs, Members.Shows]
      rw [List.forall_mem_append, Members.holds_pairs_iff parts rest v.2]
      cases present : v.1.has with
      | true => simp [Elem.holds_tree_iff parts elem v.1.value]
      | false => simp
  | .list _ _ elem rest, v => by
      have each := fun item => Elem.holds_tree_iff parts elem item
      simp only [Members.pairs, Members.Shows]
      rw [List.forall_mem_cons, Members.holds_pairs_iff parts rest v.2, parts.array,
        List.forall_mem_map]
      simp only [each]

theorem Variants.holds_pairs_iff (parts : Compositional holds) : (vs : Variants) →
    (ordinal index : Nat) → (v : vs.Impl) →
    ((∀ member ∈ Variants.pairs fp vs ordinal index v, holds member.2) ↔
      Variants.Shows (fun t v => holds (Json.tree fp t v))
        (fun enumValues v => holds (.string (toName enumValues v))) vs ordinal index v)
  | .nil, _, _, _ => by simp [Variants.pairs, Variants.Shows]
  | .cons _ elem rest, ordinal, index, v => by
      simp only [Variants.pairs, Variants.Shows]
      rw [List.forall_mem_append, Variants.holds_pairs_iff parts rest ordinal (index + 1) v.2]
      by_cases here : ordinal = index
      · simp [here, Elem.holds_tree_iff parts elem v.1]
      · simp [here]
end

theorem compositional_sound (representable : Bytes → Bool) :
    Compositional (Value.Sound representable) where
  array := by
    intro items
    rw [Value.Sound, JsonText.soundItems_iff]
  object := by
    intro members _
    rw [Value.Sound, JsonText.soundMembers_iff]

theorem compositional_settled (representable : Bytes → Bool) :
    Compositional (Value.Settled representable) where
  array := by
    intro items
    rw [Value.Settled, JsonText.settledItems_iff]
  object := by
    intro members _
    rw [Value.Settled, JsonText.settledMembers_iff]

theorem Compositional.and {holds holds' : Value → Prop} (parts : Compositional holds)
    (parts' : Compositional holds') : Compositional fun value => holds value ∧ holds' value where
  array := by
    intro items
    rw [parts.array, parts'.array, forall₂_and]
  object := by
    intro members named
    rw [parts.object members named, parts'.object members named, forall₂_and]

theorem compositional_encoded : Compositional Value.Encoded where
  array := by
    intro items
    rw [Value.Encoded, JsonText.encodedItems_iff]
  object := by
    intro members named
    rw [Value.Encoded, JsonText.encodedMembers_iff]
    constructor
    · intro both member inside
      exact (both member inside).2
    · intro each member inside
      exact ⟨named member inside, each member inside⟩

end Trees

end Arcal.Json
