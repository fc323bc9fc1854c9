import Arcal.Base.Fault
import Arcal.Json.Codec

/-! What the JSON handlers find wrong with a value: `check` visits it in the order they read
it and stops at the first fault. The destination plays no part. -/

namespace Arcal.Json

open Schema Focus Verdict
open JsonText (Value)

variable (fp : Floating)

def checkValue : (t : CxxType) → Value → Except Fault Unit
  | .uuid, .string text => UUID.check text
  | t, value =>
      match parseValue fp t value [] with
      | .ok _ => .ok ()
      | .error _ => .error .rejected

def checkItems (check : Value → Except Fault Unit) (maxOccurs : Option Nat) (held : Nat) :
    List Value → Except Fault Unit
  | [] => .ok ()
  | item :: rest => do
      check item
      if ∀ limit ∈ maxOccurs, held < limit then checkItems check maxOccurs (held + 1) rest
      else .error .rejected

def checkRequired (member : Option Value) (check : Value → Except Fault Unit) :
    Except Fault Unit :=
  match member with
  | some value => check value
  | none => .error .rejected

def checkOptional (member : Option Value) (check : Value → Except Fault Unit) :
    Except Fault Unit :=
  match member with
  | some value => check value
  | none => .ok ()

def checkList (member : Option Value) (maxOccurs : Option Nat)
    (check : Value → Except Fault Unit) : Except Fault Unit :=
  match member with
  | some (.array items) => checkItems check maxOccurs 0 items
  | _ => .error .rejected

def checkVariant (member : Option Value) (check : Value → Except Fault Unit) :
    Except Fault Nat :=
  match member with
  | some value => (check value).map fun _ => 1
  | none => .ok 0

def checkChoice (matched : Nat) : Except Fault Unit :=
  if matched > 1 then .error .rejected else .ok ()

mutual
def Elem.check : Elem → Value → Except Fault Unit
  | .prim t, value => checkValue fp t value
  | .enum _ enumValues, value =>
      match value with
      | .string text => if text ∈ enumNames enumValues then .ok () else .error .rejected
      | _ => .error .rejected
  | .cls _ body, value =>
      match value with
      | .object members => Members.check body members
      | _ => .error .rejected

def Members.check : Members → List (Bytes × Value) → Except Fault Unit
  | .nil, _ => .ok ()
  | .base _ body rest, members => do
      Members.check body members
      Members.check rest members
  | .choice variants rest, members => do
      let matched ← Variants.check variants members
      checkChoice matched
      Members.check rest members
  | .required name elem rest, members => do
      checkRequired (find members (utf8 name)) fun value => Elem.check elem value
      Members.check rest members
  | .optional name elem rest, members => do
      checkOptional (find members (utf8 name)) fun value => Elem.check elem value
      Members.check rest members
  | .list name maxOccurs elem rest, members => do
      checkList (find members (utf8 name)) maxOccurs fun item => Elem.check elem item
      Members.check rest members

def Variants.check : Variants → List (Bytes × Value) → Except Fault Nat
  | .nil, _ => .ok 0
  | .cons name elem rest, members => do
      let here ← checkVariant (find members (utf8 name)) fun value => Elem.check elem value
      let later ← Variants.check rest members
      return here + later
end

/-- The context of a message decides nothing but the message. -/
def Complains {α : Type} (parser : Bytes → Except Exc α) : Prop :=
  (∃ a, ∀ context, parser context = .ok a) ∨
    ∀ context, ∃ what, parser context = .error (.uciException what)

theorem Complains.map {α β : Type} {parser : Bytes → Except Exc α} (f : α → β)
    (complains : Complains parser) : Complains fun context => do
      let a ← parser context
      return f a := by
  rcases complains with ⟨a, accepts⟩ | refuses
  · exact .inl ⟨f a, fun context => by simp only [accepts context, bind, Except.bind]; rfl⟩
  · refine .inr fun context => ?_
    rcases refuses context with ⟨what, same⟩
    exact ⟨what, by simp only [same, bind, Except.bind]⟩

theorem complains_ok {α : Type} (a : α) : Complains fun _ => .ok a := .inl ⟨a, fun _ => rfl⟩

theorem complains_complaint {α : Type} (text : String) :
    Complains (α := α) fun context => .error (complaint text context) :=
  .inr fun _ => ⟨_, rfl⟩

theorem complains_hexBytes (value : Value) : Complains (parseHexBytes value) := by
  unfold parseHexBytes
  cases value with
  | string text =>
      simp only
      split
      · exact complains_complaint _
      · split
        · exact complains_ok _
        · exact complains_complaint _
  | _ => exact complains_complaint _

theorem complains_signed (least greatest : Int) (value : Value) :
    Complains (parseSigned fp least greatest value) := by
  unfold parseSigned
  cases (number fp value).bind getInt64 with
  | none => exact complains_complaint _
  | some parsed =>
      simp only
      split
      · exact complains_complaint _
      · exact complains_ok _

theorem complains_unsigned (greatest : Nat) (value : Value) :
    Complains (parseUnsigned fp greatest value) := by
  unfold parseUnsigned
  cases number fp value with
  | none => exact complains_complaint _
  | some n =>
      cases n with
      | unsigned n =>
          simp only [bind, Except.bind]
          split
          · exact complains_complaint _
          · exact complains_ok _
      | floating bits => exact complains_complaint _
      | integer i =>
          by_cases negative : i < 0
          · simp only [if_pos negative, bind, Except.bind]
            exact complains_complaint _
          · simp only [if_neg negative, bind, Except.bind]
            split
            · exact complains_complaint _
            · exact complains_ok _

theorem complains_floating {α : Type} (get : Number → α) (value : Value) :
    Complains (parseFloating fp get value) := by
  unfold parseFloating
  cases number fp value with
  | none => exact complains_complaint _
  | some n => exact complains_ok _

theorem complains_parseValue {t : CxxType} (other : t ≠ .uuid) (value : Value) :
    Complains (parseValue fp t value) := by
  cases t with
  | uuid => exact absurd rfl other
  | bool =>
      cases value with
      | bool b => exact complains_ok b
      | _ => exact complains_complaint _
  | string =>
      cases value with
      | string text => exact complains_ok text
      | _ => exact complains_complaint _
  | bytes => exact complains_hexBytes value
  | int8 => exact (complains_signed fp _ _ value).map _
  | int16 => exact (complains_signed fp _ _ value).map _
  | int32 => exact (complains_signed fp _ _ value).map _
  | int64 => exact complains_signed fp _ _ value
  | uint8 => exact (complains_unsigned fp _ value).map _
  | uint16 => exact (complains_unsigned fp _ value).map _
  | uint32 => exact (complains_unsigned fp _ value).map _
  | uint64 => exact complains_unsigned fp _ value
  | float => exact complains_floating fp fp.toFloat value
  | double => exact complains_floating fp fp.toDouble value

theorem parseValue_agree (t : CxxType) (value : Value) (context : Bytes) :
    Agree Fault.Thrown (fun _ _ => True) (parseValue fp t value context) (checkValue fp t value) := by
  have plain : Complains (parseValue fp t value) →
      checkValue fp t value = (match parseValue fp t value [] with
        | .ok _ => .ok ()
        | .error _ => .error .rejected) →
      Agree Fault.Thrown (fun _ _ => True) (parseValue fp t value context)
        (checkValue fp t value) := by
    intro complains same
    rw [same]
    rcases complains with ⟨a, accepts⟩ | refuses
    · rw [accepts, accepts]
      trivial
    · rcases refuses context with ⟨what, here⟩
      rcases refuses [] with ⟨what', there⟩
      rw [here, there]
      trivial
  by_cases isUuid : t = .uuid
  · subst isUuid
    cases value with
    | string text => exact UUID.fromString_agree text
    | null => trivial
    | bool b => trivial
    | number literal => trivial
    | array items => trivial
    | object members => trivial
  · apply plain (complains_parseValue fp isUuid value)
    cases t with
    | uuid => exact absurd rfl isUuid
    | _ => rfl

theorem parseEnum_agree [CaseTable] (name : String) (enumValues : List String) (value : Value) :
    Agree Fault.Thrown (fun _ _ => True) (parseEnum name enumValues value)
      (Elem.check fp (.enum name enumValues) value) := by
  cases value with
  | string text =>
      simp only [parseEnum, fromName, Elem.check]
      cases found : (enumNames enumValues).findIdx? (· == text) with
      | some i =>
          have known : text ∈ enumNames enumValues := by
            have hit := List.findIdx?_eq_some_iff_getElem.mp found
            rcases hit with ⟨bound, same, _⟩
            rw [beq_iff_eq] at same
            rw [← same]
            exact List.getElem_mem bound
          rw [if_pos known]
          trivial
      | none =>
          have unknown : text ∉ enumNames enumValues := by
            intro member
            have miss := List.findIdx?_eq_none_iff.mp found text member
            rw [beq_self_eq_true] at miss
            cases miss
          rw [if_neg unknown]
          trivial
  | null => trivial
  | bool b => trivial
  | number literal => trivial
  | array items => trivial
  | object members => trivial

/-- A run that ends as foreseen, wherever it leaves its object. -/
abbrev EndsLike {σ α β : Type} (result : EStateM.Result Exc σ α) (scan : Except Fault β) : Prop :=
  Foreseen Fault.Thrown (fun _ _ _ => True) result scan

abbrev CountsLike {σ : Type} (result : EStateM.Result Exc σ Nat) (scan : Except Fault Nat) :
    Prop :=
  Foreseen Fault.Thrown (fun matched _ foreseen => matched = foreseen) result scan

section Combinators

variable {σ τ : Type}

theorem requireMember_some {members : List (Bytes × Value)} {name context : Bytes}
    {value : Value} (found : find members name = some value) (obj : σ) :
    (attempt (requireMember (.object members) name context) : Fill Exc σ Value) obj =
      .ok value obj := by
  simp only [requireMember, requireObject, bind, Except.bind, found, attempt]

theorem requireMember_none {members : List (Bytes × Value)} {name context : Bytes}
    (missing : find members name = none) (obj : σ) :
    (attempt (requireMember (.object members) name context) : Fill Exc σ Value) obj =
      .error (complaint "missing required field " (context ++ utf8 "." ++ name)) obj := by
  simp only [requireMember, requireObject, bind, Except.bind, missing, attempt]

theorem optionalMember_run {members : List (Bytes × Value)} {name context : Bytes} (obj : σ) :
    (attempt (optionalMember (.object members) name context) : Fill Exc σ (Option Value)) obj =
      .ok (find members name) obj := rfl

theorem endsLike_fillOptional (generated : Bool) (member : Option Value) (slot : OptSlot σ)
    {inner : Value → Fill Exc σ Unit} {check : Value → Except Fault Unit}
    (each : ∀ value obj, EndsLike (inner value obj) (check value)) :
    EndsLike (fillOptional generated member inner slot) (checkOptional member check) := by
  cases member with
  | none => trivial
  | some value =>
      exact foreseen_markAnd fun start =>
        foreseen_within (each value start.value) fun _ _ _ _ => trivial

theorem endsLike_pushBack {maxOccurs : Option Nat} (list : AccessorList maxOccurs σ) (item : σ) :
    Agree Fault.Thrown
      (fun longer _ => longer.items.length = list.items.length + 1) (list.pushBack item)
      (if ∀ limit ∈ maxOccurs, list.items.length < limit then .ok () else .error .rejected) := by
  by_cases room : ∀ limit ∈ maxOccurs, list.items.length < limit
  · rcases AccessorList.pushBack_room list item room with ⟨longer, run, items⟩
    rw [if_pos room, run]
    change longer.items.length = _
    rw [items, List.length_append, List.length_singleton]
  · rw [if_neg room]
    simp only [AccessorList.pushBack, dif_neg room]
    trivial

theorem endsLike_items {maxOccurs : Option Nat} {fresh : σ} {copy : σ → σ}
    {inner : Value → Fill Exc σ Unit} {check : Value → Except Fault Unit}
    (one : ∀ value, EndsLike (inner value fresh) (check value)) (items : List Value)
    (list : AccessorList maxOccurs σ) :
    EndsLike (each (pushItem fresh copy inner) items list)
      (checkItems check maxOccurs list.items.length items) := by
  induction items generalizing list with
  | nil => trivial
  | cons item rest ih =>
      have pushed : Foreseen Fault.Thrown
          (fun _ longer _ => longer.items.length = list.items.length + 1)
          (pushItem fresh copy inner item list)
          (check item >>= fun _ =>
            if ∀ limit ∈ maxOccurs, list.items.length < limit then .ok ()
            else .error .rejected) := by
        apply Foreseen.bind (foreseen_onNew (one item))
        intro made unchanged _ same
        rw [same.1]
        exact foreseen_modifyOrThrow (endsLike_pushBack list (copy made))
      have scan : checkItems check maxOccurs list.items.length (item :: rest) =
          ((check item >>= fun _ =>
            if ∀ limit ∈ maxOccurs, list.items.length < limit then .ok ()
            else .error .rejected) >>= fun _ =>
              checkItems check maxOccurs (list.items.length + 1) rest) := by
        rw [checkItems]
        cases check item with
        | error fault => rfl
        | ok _ =>
            by_cases room : ∀ limit ∈ maxOccurs, list.items.length < limit
            · simp only [bind, Except.bind, if_pos room]
            · simp only [bind, Except.bind, if_neg room]
      rw [scan]
      apply Foreseen.bind pushed
      intro _ longer _ size
      rw [← size]
      exact ih longer

theorem endsLike_fillList {maxOccurs : Option Nat} {fresh : σ} {copy : σ → σ}
    {inner : Value → Fill Exc σ Unit} {check : Value → Except Fault Unit}
    (one : ∀ value, EndsLike (inner value fresh) (check value)) (items : List Value)
    (list : AccessorList maxOccurs σ) :
    EndsLike (fillList fresh copy inner items list) (checkItems check maxOccurs 0 items) := by
  unfold fillList
  rw [InPlace.bind_ok (set_run _ list)]
  exact endsLike_items one items .clear

end Combinators

theorem endsLike_set {σ β : Type} {result : Except Exc σ} {scan : Except Fault β} {obj : σ}
    (agree : Agree Fault.Thrown (fun _ _ => True) result scan) :
    EndsLike ((do
        let v ← attempt result
        set v : Fill Exc σ Unit) obj) scan := by
  cases result with
  | ok v =>
      cases scan with
      | ok b => trivial
      | error fault => exact agree
  | error e =>
      cases scan with
      | ok b => exact agree
      | error fault => exact agree

theorem endsLike_checkMatched {σ : Type} (typeName : String) (matched : Nat) (obj : σ) :
    EndsLike (attempt (checkMatched typeName matched) obj) (checkChoice matched) := by
  unfold checkMatched checkChoice
  split
  · trivial
  · trivial

theorem countsLike_within {σ τ : Type} {get : σ → τ} {put : σ → τ → σ} {m : Fill Exc τ Nat}
    {scan : Except Fault Nat} {obj : σ} (inner : CountsLike (m (get obj)) scan) :
    CountsLike (within get put m obj) scan :=
  foreseen_within inner fun _ _ _ same => same

theorem countsLike_fillVariant {σ τ : Type} (generated : Bool) (ordinal : UInt32)
    (member : Option Value) (slot : ChoiceSlot (σ × τ)) {inner : Value → Fill Exc σ Unit}
    {check : Value → Except Fault Unit}
    (each : ∀ value obj, EndsLike (inner value obj) (check value)) :
    CountsLike (fillVariant generated ordinal member inner slot) (checkVariant member check) := by
  cases member with
  | none => exact Foreseen.pure rfl
  | some value =>
      have chosen : EndsLike (chooseAnd generated ordinal (inner value) slot) (check value) :=
        foreseen_markAnd fun start =>
          foreseen_within (each value start.store.1) fun _ _ _ _ => trivial
      have counted : checkVariant (some value) check = check value >>= fun _ => .ok 1 := by
        simp only [checkVariant]
        cases check value with
        | ok _ => rfl
        | error fault => rfl
      rw [counted]
      exact Foreseen.bind chosen fun _ _ _ _ => Foreseen.pure rfl

theorem endsLike_fst {σ τ α β : Type} {m : Fill Exc σ α} {scan : Except Fault β} {obj : σ × τ}
    (inner : EndsLike (m obj.1) scan) : EndsLike (onFst m obj) scan :=
  foreseen_within inner fun _ _ _ _ => trivial

theorem endsLike_snd {σ τ α β : Type} {m : Fill Exc τ α} {scan : Except Fault β} {obj : σ × τ}
    (inner : EndsLike (m obj.2) scan) : EndsLike (onSnd m obj) scan :=
  foreseen_within inner fun _ _ _ _ => trivial

mutual
theorem Elem.deserialize_endsLike [CaseTable] : (e : Elem) → (context : Bytes) → (value : Value) →
    (obj : e.Impl) → EndsLike (Elem.deserialize fp context e value obj) (Elem.check fp e value)
  | .prim t, context, value, obj => by
      simp only [Elem.deserialize, Elem.check]
      exact endsLike_set (parseValue_agree fp t value context)
  | .enum name enumValues, context, value, obj => by
      simp only [Elem.deserialize]
      exact endsLike_set (parseEnum_agree fp name enumValues value)
  | .cls name body, context, value, obj => by
      simp only [Elem.deserialize, Elem.check]
      cases value with
      | object members => exact Members.deserializeFields_endsLike body name members obj
      | null => trivial
      | bool b => trivial
      | number literal => trivial
      | string text => trivial
      | array items => trivial

theorem Members.deserializeFields_endsLike [CaseTable] : (ms : Members) → (typeName : String) →
    (members : List (Bytes × Value)) → (obj : ms.Impl) →
    EndsLike (Members.deserializeFields fp typeName ms (.object members) obj)
      (Members.check fp ms members)
  | .nil, typeName, members, obj => by
      simp only [Members.deserializeFields, Members.check]
      exact Foreseen.pure trivial
  | .base name body rest, typeName, members, obj => by
      simp only [Members.deserializeFields, Members.check]
      apply Foreseen.bind
      · exact endsLike_fst (Members.deserializeFields_endsLike body name members obj.1)
      · intro _ obj' _ _
        exact endsLike_snd (Members.deserializeFields_endsLike rest typeName members obj'.2)
  | .choice variants rest, typeName, members, obj => by
      simp only [Members.deserializeFields, Members.check]
      apply Foreseen.bind
      · exact countsLike_within (Variants.deserialize_countsLike variants typeName 1 members obj.1)
      · intro matched obj' foreseen same
        rw [same]
        apply Foreseen.bind
        · exact endsLike_checkMatched typeName foreseen obj'
        · intro _ obj'' _ _
          exact endsLike_snd (Members.deserializeFields_endsLike rest typeName members obj''.2)
  | .required name elem rest, typeName, members, obj => by
      simp only [Members.deserializeFields, Members.check]
      cases found : find members (utf8 name) with
      | none =>
          rw [InPlace.bind_error (requireMember_none found obj)]
          trivial
      | some value =>
          rw [InPlace.bind_ok (requireMember_some found obj)]
          apply Foreseen.bind
          · exact endsLike_fst
              (Elem.deserialize_endsLike elem (fieldContext typeName name) value obj.1)
          · intro _ obj' _ _
            exact endsLike_snd (Members.deserializeFields_endsLike rest typeName members obj'.2)
  | .optional name elem rest, typeName, members, obj => by
      simp only [Members.deserializeFields, Members.check, InPlace.bind_ok (optionalMember_run obj)]
      apply Foreseen.bind
      · exact endsLike_fst (endsLike_fillOptional _ _ obj.1 fun value slot =>
          Elem.deserialize_endsLike elem (fieldContext typeName name) value slot)
      · intro _ obj' _ _
        exact endsLike_snd (Members.deserializeFields_endsLike rest typeName members obj'.2)
  | .list name _ elem rest, typeName, members, obj => by
      simp only [Members.deserializeFields, Members.check]
      cases found : find members (utf8 name) with
      | none =>
          rw [InPlace.bind_error (requireMember_none found obj)]
          trivial
      | some value =>
          rw [InPlace.bind_ok (requireMember_some found obj)]
          cases value with
          | array items =>
              have isArray : (attempt (requireArray (.array items) (fieldContext typeName name)) :
                  Fill Exc _ (List Value)) obj = .ok items obj := rfl
              rw [InPlace.bind_ok isArray]
              apply Foreseen.bind
              · exact endsLike_fst (endsLike_fillList (fun value =>
                  Elem.deserialize_endsLike elem (fieldContext typeName name) value elem.fresh)
                  items obj.1)
              · intro _ obj' _ _
                exact endsLike_snd
                  (Members.deserializeFields_endsLike rest typeName members obj'.2)
          | null => trivial
          | bool b => trivial
          | number literal => trivial
          | string text => trivial
          | object members => trivial

theorem Variants.deserialize_countsLike [CaseTable] : (vs : Variants) → (typeName : String) →
    (index : Nat) → (members : List (Bytes × Value)) → (obj : ChoiceSlot vs.Impl) →
    CountsLike (Variants.deserialize fp typeName vs index (.object members) obj)
      (Variants.check fp vs members)
  | .nil, typeName, index, members, obj => by
      simp only [Variants.deserialize, Variants.check]
      exact Foreseen.pure rfl
  | .cons name elem rest, typeName, index, members, obj => by
      simp only [Variants.deserialize, Variants.check,
        InPlace.bind_ok (optionalMember_run obj)]
      apply Foreseen.bind
      · exact countsLike_fillVariant _ _ _ obj fun value slot =>
          Elem.deserialize_endsLike elem (fieldContext typeName name) value slot
      · intro here obj' foreseen same
        apply Foreseen.bind
        · exact countsLike_within
            (Variants.deserialize_countsLike rest typeName (index + 1) members _)
        · intro later obj'' foreseen' same'
          rw [same, same']
          exact Foreseen.pure rfl
end

end Arcal.Json
