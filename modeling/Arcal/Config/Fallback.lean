import Arcal.Config.CalConfig

/-! When the identities that `ARCAL_CONFIG=NONE` falls back to tell two service labels apart
that differ in one character. -/

namespace Arcal.Config

open JsonText (Value)

/-- What a character does to its octet behind the exclusive or: rotate it by one bit. -/
def turn (octet : UInt8) : UInt8 := octet <<< 1 ||| octet >>> 7

/-- The bits of an octet that version and variant leave alone. -/
def kept (lane : Nat) : UInt8 :=
  if lane = 6 then 0x0f else if lane = 8 then 0x3f else 0xff

/-- The bits that version and variant set. -/
def stamped (lane : Nat) : UInt8 :=
  if lane = 6 then 0x30 else if lane = 8 then 0x80 else 0

theorem turn_xor (x y : UInt8) : turn (x ^^^ y) = turn x ^^^ turn y := by
  apply UInt8.toBitVec_inj.mp
  simp only [turn, UInt8.toBitVec_or, UInt8.toBitVec_xor, UInt8.toBitVec_shiftLeft,
    UInt8.toBitVec_shiftRight]
  ext i small
  rcases Nat.eq_zero_or_pos i with rfl | later
  · simp
  · have past : ∀ v : BitVec 8, v.getLsbD (7 + i) = false := fun v =>
      BitVec.getLsbD_of_ge v _ (by omega)
    have behind : i ≠ 0 := by omega
    simp [past, behind]

/-- A difference in the bits that are kept is all that shows behind the stamp. -/
theorem stamp_xor (x e kept fixed : UInt8) (apart : kept &&& fixed = 0) :
    (x ^^^ e) &&& kept ||| fixed = (x &&& kept ||| fixed) ^^^ (e &&& kept) := by
  apply UInt8.toBitVec_inj.mp
  apply BitVec.eq_of_getLsbD_eq
  intro i small
  have zero := congrArg (fun v : UInt8 => v.toBitVec.getLsbD i) apart
  simp at zero ⊢
  cases keptBit : kept.toBitVec.getLsbD i with
  | false => simp
  | true =>
      rw [keptBit] at zero
      simp [zero]

theorem xor_eq_self (x e : UInt8) : x ^^^ e = x ↔ e = 0 := by
  constructor
  · intro same
    calc
      e = x ^^^ (x ^^^ e) := by rw [← UInt8.xor_assoc, UInt8.xor_self, UInt8.zero_xor]
      _ = 0 := by rw [same, UInt8.xor_self]
  · intro zero
    rw [zero, UInt8.xor_zero]

theorem kept_stamped (lane : Nat) : kept lane &&& stamped lane = 0 := by
  unfold kept stamped
  split
  · decide
  · split
    · decide
    · decide

def absorb (out : List UInt8) (cell : UInt8 × Nat) : List UInt8 :=
  out.modify (cell.2 % 16) fun octet => turn (octet ^^^ cell.1)

def disturb (lane : Nat) (e : UInt8) (out : List UInt8) : List UInt8 :=
  out.modify lane fun octet => octet ^^^ e

theorem simpleNameHash_eq (ns name : List UInt8) : simpleNameHash ns name =
    ((name.zipIdx.foldl absorb ns).modify 6 fun octet => octet &&& 0x0f ||| 0x30).modify 8
      fun octet => octet &&& 0x3f ||| 0x80 := rfl

theorem absorb_disturb (lane : Nat) (e : UInt8) (out : List UInt8) (cell : UInt8 × Nat) :
    absorb (disturb lane e out) cell =
      disturb lane (if cell.2 % 16 = lane then turn e else e) (absorb out cell) := by
  unfold absorb disturb
  by_cases same : cell.2 % 16 = lane
  · rw [if_pos same, same, List.modify_modify_eq, List.modify_modify_eq]
    congr 1
    funext octet
    change turn (octet ^^^ e ^^^ cell.1) = turn (octet ^^^ cell.1) ^^^ turn e
    rw [← turn_xor, UInt8.xor_assoc, UInt8.xor_assoc, UInt8.xor_comm e]
  · rw [if_neg same, List.modify_modify_ne _ _ _ (Ne.symm same)]

/-- Behind `k` more characters the difference has been turned once for every sixteen. -/
theorem foldl_disturb (position k : Nat) (back : Bytes) (e : UInt8) (out : List UInt8) :
    (back.zipIdx (position + 1 + k)).foldl absorb
        (disturb (position % 16) (turn^[k / 16] e) out) =
      disturb (position % 16) (turn^[(k + back.length) / 16] e)
        ((back.zipIdx (position + 1 + k)).foldl absorb out) := by
  induction back generalizing k out with
  | nil => rfl
  | cons c rest ih =>
      have turned : (if (position + 1 + k) % 16 = position % 16 then turn (turn^[k / 16] e)
          else turn^[k / 16] e) = turn^[(k + 1) / 16] e := by
        by_cases again : (position + 1 + k) % 16 = position % 16
        · have more : (k + 1) / 16 = k / 16 + 1 := by omega
          rw [if_pos again, more, Function.iterate_succ_apply']
        · have asMany : (k + 1) / 16 = k / 16 := by omega
          rw [if_neg again, asMany]
      have total : k + (c :: rest).length = k + 1 + rest.length := by
        rw [List.length_cons]
        omega
      rw [List.zipIdx_cons, List.foldl_cons, List.foldl_cons, absorb_disturb, turned, total]
      exact ih (k + 1) (absorb out (c, position + 1 + k))

theorem absorb_other (out : List UInt8) (c c' : UInt8) (position : Nat) :
    absorb out (c', position) =
      disturb (position % 16) (turn (c ^^^ c')) (absorb out (c, position)) := by
  unfold absorb disturb
  rw [List.modify_modify_eq]
  congr 1
  funext octet
  change turn (octet ^^^ c') = turn (octet ^^^ c) ^^^ turn (c ^^^ c')
  rw [← turn_xor, ← UInt8.xor_assoc, UInt8.xor_assoc octet c c, UInt8.xor_self, UInt8.xor_zero]

/-- How a difference in one character arrives in its octet. -/
def difference (length position : Nat) (e : UInt8) : UInt8 :=
  turn^[(length - 1 - position) / 16 + 1] e

theorem foldl_other (ns front back : Bytes) (c c' : UInt8) :
    (front ++ c' :: back).zipIdx.foldl absorb ns =
      disturb (front.length % 16)
        (difference (front ++ c :: back).length front.length (c ^^^ c'))
        ((front ++ c :: back).zipIdx.foldl absorb ns) := by
  have behind : (front ++ c :: back).length - 1 - front.length = back.length := by
    rw [List.length_append, List.length_cons]
    omega
  have split : ∀ x : UInt8, (front ++ x :: back).zipIdx.foldl absorb ns =
      (back.zipIdx (front.length + 1)).foldl absorb
        (absorb (front.zipIdx.foldl absorb ns) (x, front.length)) := by
    intro x
    rw [List.zipIdx_append, List.foldl_append, List.zipIdx_cons, List.foldl_cons, Nat.zero_add]
  have run := foldl_disturb front.length 0 back (turn (c ^^^ c'))
    (absorb (front.zipIdx.foldl absorb ns) (c, front.length))
  rw [Nat.zero_add, Nat.add_zero, Nat.zero_div, Function.iterate_zero_apply,
    ← absorb_other] at run
  rw [split, split, run, difference, behind, Function.iterate_succ_apply]

theorem stamp_getElem? (out : List UInt8) (lane : Nat) :
    ((out.modify 6 fun octet => octet &&& 0x0f ||| 0x30).modify 8
      fun octet => octet &&& 0x3f ||| 0x80)[lane]? =
    out[lane]?.map fun octet => octet &&& kept lane ||| stamped lane := by
  have whole : ∀ octet : UInt8, octet &&& 0xff ||| 0 = octet := by
    intro octet
    rw [UInt8.or_zero]
    exact UInt8.and_neg_one
  rw [List.getElem?_modify, List.getElem?_modify]
  cases out[lane]? with
  | none => rfl
  | some octet =>
      by_cases eighth : 8 = lane
      · subst eighth
        rfl
      · by_cases sixth : 6 = lane
        · subst sixth
          rfl
        · simp [kept, stamped, eighth, sixth, Ne.symm eighth, Ne.symm sixth, whole]

theorem stamp_disturb_iff {out : List UInt8} {lane : Nat} (inside : lane < out.length)
    (e : UInt8) :
    ((disturb lane e out).modify 6 fun octet => octet &&& 0x0f ||| 0x30).modify 8
        (fun octet => octet &&& 0x3f ||| 0x80) =
      (out.modify 6 fun octet => octet &&& 0x0f ||| 0x30).modify 8
        (fun octet => octet &&& 0x3f ||| 0x80) ↔ e &&& kept lane = 0 := by
  have other : ∀ i, (disturb lane e out)[i]? =
      out[i]?.map fun octet => if lane = i then octet ^^^ e else octet := by
    intro i
    exact List.getElem?_modify _ lane out i
  have here : out[lane]? = some out[lane] := List.getElem?_eq_getElem inside
  constructor
  · intro same
    have octets := congrArg (fun octets : List UInt8 => octets[lane]?) same
    simp only [stamp_getElem?, other, here, Option.map_some, if_true, Option.some.injEq,
      stamp_xor _ _ _ _ (kept_stamped lane)] at octets
    exact (xor_eq_self _ _).mp octets
  · intro gone
    apply List.ext_getElem?
    intro i
    rw [stamp_getElem?, stamp_getElem?, other, Option.map_map]
    congr 1
    funext octet
    by_cases at' : lane = i
    · subst at'
      simp only [Function.comp_apply, if_true, stamp_xor _ _ _ _ (kept_stamped lane), gone,
        UInt8.xor_zero]
    · simp only [Function.comp_apply, if_neg at']

/-- Names of one length that differ in the character at `position` and in no other. -/
structure OneApart (position : Nat) (name name' : Bytes) : Prop where
  sized : name.length = name'.length
  here : name[position]? ≠ name'[position]?
  elsewhere : ∀ i, i ≠ position → name[i]? = name'[i]?

/-- Some bit of the difference is not overwritten by version or variant. -/
def Survives (length position : Nat) (e : UInt8) : Prop :=
  difference length position e &&& kept (position % 16) ≠ 0

instance (length position : Nat) (e : UInt8) : Decidable (Survives length position e) :=
  inferInstanceAs (Decidable (_ ≠ _))

theorem OneApart.split {position : Nat} {name name' : Bytes} (apart : OneApart position name name') :
    ∃ front c c' back, name = front ++ c :: back ∧ name' = front ++ c' :: back ∧
      front.length = position ∧ c ≠ c' := by
  have inside : position < name.length := by
    by_contra outside
    apply apart.here
    rw [List.getElem?_eq_none (by omega), List.getElem?_eq_none (by rw [← apart.sized]; omega)]
  have inside' : position < name'.length := apart.sized ▸ inside
  have front : name.take position = name'.take position := by
    apply List.ext_getElem?
    intro i
    rw [List.getElem?_take, List.getElem?_take]
    split
    · exact apart.elsewhere i (by omega)
    · rfl
  have back : name.drop (position + 1) = name'.drop (position + 1) := by
    apply List.ext_getElem?
    intro i
    rw [List.getElem?_drop, List.getElem?_drop]
    exact apart.elsewhere _ (by omega)
  refine ⟨name.take position, name[position], name'[position], name.drop (position + 1), ?_, ?_,
    List.length_take_of_le (Nat.le_of_lt inside), ?_⟩
  · rw [← List.drop_eq_getElem_cons inside, List.take_append_drop]
  · rw [front, back, ← List.drop_eq_getElem_cons inside', List.take_append_drop]
  · intro same
    apply apart.here
    rw [List.getElem?_eq_getElem inside, List.getElem?_eq_getElem inside', same]

def charactersApart (position : Nat) (name name' : Bytes) : UInt8 :=
  name.getD position 0 ^^^ name'.getD position 0

theorem createVersion3UUID_ne_iff (ns : UUID) {position : Nat} {name name' : Bytes}
    (apart : OneApart position name name') :
    createVersion3UUID ns name ≠ createVersion3UUID ns name' ↔
      Survives name.length position (charactersApart position name name') := by
  rcases apart.split with ⟨front, c, c', back, rfl, rfl, rfl, _⟩
  have characters : charactersApart front.length (front ++ c :: back) (front ++ c' :: back) =
      c ^^^ c' := by
    simp [charactersApart]
  have sized : ((front ++ c :: back).zipIdx.foldl absorb ns.octets).length = 16 := by
    have total := simpleNameHash_length ns.octets (front ++ c :: back)
    rwa [simpleNameHash_eq, List.length_modify, List.length_modify, ns.sixteen] at total
  have inside : front.length % 16 < ((front ++ c :: back).zipIdx.foldl absorb ns.octets).length := by
    rw [sized]
    omega
  rw [characters]
  refine not_congr ?_
  calc
    createVersion3UUID ns (front ++ c :: back) = createVersion3UUID ns (front ++ c' :: back) ↔
        simpleNameHash ns.octets (front ++ c' :: back) =
          simpleNameHash ns.octets (front ++ c :: back) := by
      rw [createVersion3UUID, createVersion3UUID, UUID.mk.injEq]
      exact eq_comm
    _ ↔ difference (front ++ c :: back).length front.length (c ^^^ c') &&&
          kept (front.length % 16) = 0 := by
      rw [simpleNameHash_eq, simpleNameHash_eq, foldl_other ns.octets front back c c',
        stamp_disturb_iff inside]

/-- With `ARCAL_CONFIG=NONE` every label is resolved, to a UUID hashed from it. -/
theorem resolveCalIdentity_none {readConfigFile : Bytes → Except Exc Value}
    {environment : Environment} (none' : environment.arcalConfig = some (utf8 "NONE"))
    (serviceLabel : Bytes) : resolveCalIdentity readConfigFile environment serviceLabel =
      .ok (makeFallbackIdentity serviceLabel) := by
  simp only [resolveCalIdentity, none', Option.getD_some, if_true]

/-- Names one character apart get different UUIDs exactly when a bit of the difference
survives. -/
theorem fallback_separates_iff {position : Nat} {name name' : Bytes}
    (apart : OneApart position name name') :
    (∀ ns, createVersion3UUID ns name ≠ createVersion3UUID ns name' ↔
      Survives name.length position (charactersApart position name name')) ∧
    ∀ (readConfigFile : Bytes → Except Exc Value) (environment : Environment),
      environment.arcalConfig = some (utf8 "NONE") →
      ∃ identity identity', resolveCalIdentity readConfigFile environment name = .ok identity ∧
        resolveCalIdentity readConfigFile environment name' = .ok identity' ∧
        (identity.serviceUUID ≠ identity'.serviceUUID ↔
          Survives name.length position (charactersApart position name name')) := by
  refine ⟨fun ns => createVersion3UUID_ne_iff ns apart, ?_⟩
  intro readConfigFile environment none'
  exact ⟨_, _, resolveCalIdentity_none none' name, resolveCalIdentity_none none' name',
    createVersion3UUID_ne_iff namespaceUUID apart⟩

section Labels

theorem OneApart.of_take_drop {position : Nat} {name name' : Bytes}
    (sized : name.length = name'.length) (here : name[position]? ≠ name'[position]?)
    (rest : name.take position = name'.take position ∧
      name.drop (position + 1) = name'.drop (position + 1)) : OneApart position name name' where
  sized := sized
  here := here
  elsewhere := by
    intro i other
    rcases Nat.lt_or_gt_of_ne other with before | behind
    · rw [← List.getElem?_take_of_lt before, rest.1, List.getElem?_take_of_lt before]
    · have past : position + 1 + (i - (position + 1)) = i := by omega
      rw [← past, ← List.getElem?_drop, rest.2, List.getElem?_drop]

/-- The last characters of these labels differ in a bit that the version overwrites. -/
theorem fallback_merges_labels : OneApart 6 (utf8 "Radar01") (utf8 "Radar09") ∧
    createVersion3UUID namespaceUUID (utf8 "Radar01") =
      createVersion3UUID namespaceUUID (utf8 "Radar09") ∧
    (makeFallbackIdentity (utf8 "Radar01")).serviceUUID =
      (makeFallbackIdentity (utf8 "Radar09")).serviceUUID := by
  have apart : OneApart 6 (utf8 "Radar01") (utf8 "Radar09") :=
    OneApart.of_take_drop (by decide +kernel) (by decide +kernel) (by decide +kernel)
  have same : createVersion3UUID namespaceUUID (utf8 "Radar01") =
      createVersion3UUID namespaceUUID (utf8 "Radar09") := by
    decide +kernel
  exact ⟨apart, same, same⟩

theorem fallback_separates_radars :
    createVersion3UUID namespaceUUID (utf8 "Radar01") ≠
      createVersion3UUID namespaceUUID (utf8 "Radar02") ∧
    ∃ identity identity',
      resolveCalIdentity (fun _ => .ok .null) ⟨some (utf8 "NONE"), none⟩ (utf8 "Radar01") =
        .ok identity ∧
      resolveCalIdentity (fun _ => .ok .null) ⟨some (utf8 "NONE"), none⟩ (utf8 "Radar02") =
        .ok identity' ∧
      identity.serviceUUID ≠ identity'.serviceUUID := by
  have apart : OneApart 6 (utf8 "Radar01") (utf8 "Radar02") :=
    .of_take_drop (by decide +kernel) (by decide +kernel) (by decide +kernel)
  have survives : Survives (utf8 "Radar01").length 6
      (charactersApart 6 (utf8 "Radar01") (utf8 "Radar02")) := by
    decide +kernel
  have separates := fallback_separates_iff apart
  rcases separates.2 (fun _ => .ok .null) ⟨some (utf8 "NONE"), none⟩ rfl with
    ⟨identity, identity', resolved, resolved', apart'⟩
  exact ⟨(separates.1 namespaceUUID).mpr survives, identity, identity', resolved, resolved',
    apart'.mpr survives⟩

end Labels

end Arcal.Config
