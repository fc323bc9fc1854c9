import Arcal.Base.Value
import Arcal.Lib.BigEndian
import Arcal.Lib.Words

/-! The views of a `uci::base::UUID`: its text, its octets, its two 64-bit halves and its place
in the order. All of them show one 128-bit number. -/

namespace Arcal.UUID

open Words (fold64 split64)

structure ValueUUID where
  mostSignificantBits : UInt64
  leastSignificantBits : UInt64
  deriving DecidableEq, Repr

/-- `UUID(uint64_t msb, uint64_t lsb)` -/
def ofBits (msb lsb : UInt64) : UUID :=
  ⟨split64 msb ++ split64 lsb, rfl⟩

def ofValueUUID (value : ValueUUID) : UUID :=
  ⟨split64 value.mostSignificantBits ++ split64 value.leastSignificantBits, rfl⟩

def getValueUUID (uuid : UUID) : ValueUUID where
  mostSignificantBits := fold64 (uuid.octets.take 8)
  leastSignificantBits := fold64 (uuid.octets.drop 8)

/-- Sixteen octets at most are taken; where there are fewer, the others stay zero. -/
def fromOctets (octets : Bytes) : UUID :=
  ⟨octets.take 16 ++ List.replicate (16 - min octets.length 16) 0, by
    rw [List.length_append, List.length_take, List.length_replicate]
    omega⟩

def getOctets (uuid : UUID) : Bytes := uuid.octets

def eq (left right : UUID) : Bool := left.octets == right.octets

/-- `operator<`: arrays are compared lexicographically. -/
def lt (left right : UUID) : Bool := decide (left.octets < right.octets)

/-- `operator<=` on arrays is the negation of `<` the other way round. -/
def le (left right : UUID) : Bool := !decide (right.octets < left.octets)

def number (uuid : UUID) : Nat :=
  uuid.getValueUUID.mostSignificantBits.toNat * 2 ^ 64 +
    uuid.getValueUUID.leastSignificantBits.toNat

def hyphenated (digits : Bytes) : Bytes :=
  digits.take 8 ++ hyphen :: ((digits.drop 8).take 4 ++ hyphen :: ((digits.drop 12).take 4 ++
    hyphen :: ((digits.drop 16).take 4 ++ hyphen :: digits.drop 20)))

def canonicalText (n : Nat) : Bytes := hyphenated ((BigEndian.digits 16 32 n).map Hex.digit)

def octetsValue (octets : Bytes) : Nat := BigEndian.value 256 (octets.map UInt8.toNat)

theorem toNat_lt_of_mem {octets : Bytes} : ∀ d ∈ octets.map UInt8.toNat, d < 256 := by
  intro d member
  rcases List.mem_map.mp member with ⟨octet, _, rfl⟩
  exact octet.toNat_lt

theorem fold64_toNat {octets : Bytes} (eight : octets.length = 8) :
    (fold64 octets).toNat = octetsValue octets := by
  rw [fold64, Words.foldl_toNat octets 0 0 eight (by decide), octetsValue, BigEndian.value,
    List.foldl_map]
  rfl

theorem octetsValue_injective {left right : Bytes} (sized : left.length = right.length)
    (same : octetsValue left = octetsValue right) : left = right := by
  have digits := BigEndian.value_injective (by decide) (by simpa using sized) toNat_lt_of_mem
    toNat_lt_of_mem same
  exact List.map_injective_iff.mpr (fun _ _ => UInt8.toNat_inj.mp) digits

theorem split64_fold64 {octets : Bytes} (eight : octets.length = 8) :
    split64 (fold64 octets) = octets := by
  apply octetsValue_injective
  · rw [Words.split64_length, eight]
  · rw [← fold64_toNat (Words.split64_length _), ← fold64_toNat eight, Words.fold64_split64]

theorem take_length (uuid : UUID) : (uuid.octets.take 8).length = 8 := by
  rw [List.length_take, uuid.sixteen]
  rfl

theorem drop_length (uuid : UUID) : (uuid.octets.drop 8).length = 8 := by
  rw [List.length_drop, uuid.sixteen]

theorem ext_octets {left right : UUID} (same : left.octets = right.octets) : left = right := by
  cases left
  cases right
  cases same
  rfl

theorem ofValueUUID_getValueUUID (uuid : UUID) : ofValueUUID uuid.getValueUUID = uuid := by
  apply ext_octets
  calc
    (ofValueUUID uuid.getValueUUID).octets =
        split64 (fold64 (uuid.octets.take 8)) ++ split64 (fold64 (uuid.octets.drop 8)) := rfl
    _ = uuid.octets.take 8 ++ uuid.octets.drop 8 := by
      rw [split64_fold64 (take_length uuid), split64_fold64 (drop_length uuid)]
    _ = uuid.octets := List.take_append_drop 8 uuid.octets

theorem getValueUUID_ofBits (msb lsb : UInt64) : (ofBits msb lsb).getValueUUID = ⟨msb, lsb⟩ := by
  change (⟨fold64 (split64 msb), fold64 (split64 lsb)⟩ : ValueUUID) = _
  rw [Words.fold64_split64, Words.fold64_split64]

theorem fromOctets_getOctets (uuid : UUID) : fromOctets uuid.getOctets = uuid := by
  apply ext_octets
  change uuid.octets.take 16 ++ List.replicate (16 - min uuid.octets.length 16) 0 = uuid.octets
  rw [uuid.sixteen, List.take_of_length_le (by rw [uuid.sixteen])]
  exact List.append_nil _

theorem number_eq (uuid : UUID) : uuid.number = octetsValue uuid.octets := by
  calc
    uuid.number = octetsValue (uuid.octets.take 8) * 256 ^ 8 + octetsValue (uuid.octets.drop 8) := by
      rw [← fold64_toNat (take_length uuid), ← fold64_toNat (drop_length uuid)]
      rfl
    _ = octetsValue (uuid.octets.take 8 ++ uuid.octets.drop 8) := by
      rw [octetsValue, octetsValue, octetsValue, List.map_append, BigEndian.value_append,
        List.length_map, drop_length]
    _ = octetsValue uuid.octets := by rw [List.take_append_drop]

theorem pairs_eq (octets : Bytes) : octets.flatMap Hex.pair =
    (BigEndian.digits 16 (2 * octets.length) (octetsValue octets)).map Hex.digit := by
  have small : ∀ d ∈ BigEndian.halved 16 (octets.map UInt8.toNat), d < 16 := by
    intro d member
    rcases List.mem_flatMap.mp member with ⟨octet, inside, half⟩
    have below := toNat_lt_of_mem octet inside
    simp only [List.mem_cons, List.not_mem_nil, or_false] at half
    omega
  have written := BigEndian.digits_value (by decide) small
  rw [BigEndian.halved_length, List.length_map, BigEndian.value_halved] at written
  rw [octetsValue, written, BigEndian.halved, List.map_flatMap, List.flatMap_map]
  rfl

theorem toString_eq_hyphenated (uuid : UUID) :
    toString uuid = hyphenated (uuid.octets.flatMap Hex.pair) := by
  rcases uuid with ⟨octets, sixteen⟩
  match octets, sixteen with
  | [_, _, _, _, _, _, _, _, _, _, _, _, _, _, _, _], _ => rfl

theorem toString_eq_canonicalText (uuid : UUID) : toString uuid = canonicalText uuid.number := by
  rw [toString_eq_hyphenated, pairs_eq, uuid.sixteen, number_eq]
  rfl

theorem toNat_lt_iff {left right : Bytes} :
    left.map UInt8.toNat < right.map UInt8.toNat ↔ left < right := by
  induction left generalizing right with
  | nil => cases right <;> simp
  | cons octet rest ih =>
      cases right with
      | nil => simp
      | cons octet' rest' =>
          rw [List.map_cons, List.map_cons, List.cons_lt_cons_iff, List.cons_lt_cons_iff, ih,
            UInt8.toNat_inj, UInt8.lt_iff_toNat_lt]

theorem lt_iff (left right : UUID) : lt left right = true ↔ left.number < right.number := by
  have sized : (left.octets.map UInt8.toNat).length = (right.octets.map UInt8.toNat).length := by
    rw [List.length_map, List.length_map, left.sixteen, right.sixteen]
  calc
    lt left right = true ↔ left.octets.map UInt8.toNat < right.octets.map UInt8.toNat := by
      rw [lt, decide_eq_true_iff, toNat_lt_iff]
    _ ↔ octetsValue left.octets < octetsValue right.octets :=
      BigEndian.lt_iff_value_lt (by decide) sized toNat_lt_of_mem toNat_lt_of_mem
    _ ↔ left.number < right.number := by rw [number_eq, number_eq]

theorem le_iff (left right : UUID) : le left right = true ↔ left.number ≤ right.number := by
  have reversed := lt_iff right left
  rw [lt, decide_eq_true_iff] at reversed
  rw [le, Bool.not_eq_true', decide_eq_false_iff_not, reversed, Nat.not_lt]

theorem eq_iff (left right : UUID) : eq left right = true ↔ left.number = right.number := by
  rw [eq, beq_iff_eq, number_eq, number_eq]
  constructor
  · intro same
    rw [same]
  · exact octetsValue_injective (left.sixteen.trans right.sixteen.symm)

/-- All views of a UUID show one 128-bit number, and each can be turned back into the UUID. -/
theorem views_agree :
    (∀ uuid, fromString (toString uuid) = .ok uuid) ∧
    (∀ uuid, ofValueUUID uuid.getValueUUID = uuid) ∧
    (∀ msb lsb, (ofBits msb lsb).getValueUUID = ⟨msb, lsb⟩) ∧
    (∀ uuid, fromOctets uuid.getOctets = uuid) ∧
    (∀ uuid, toString uuid = canonicalText uuid.number ∧ (toString uuid).length = 36) ∧
    ∀ left right, (lt left right = true ↔ left.number < right.number) ∧
      (le left right = true ↔ left.number ≤ right.number) ∧
      (eq left right = true ↔ left.number = right.number) := by
  refine ⟨fromString_toString, ofValueUUID_getValueUUID, getValueUUID_ofBits,
    fromOctets_getOctets, ?_, ?_⟩
  · intro uuid
    exact ⟨toString_eq_canonicalText uuid, toString_length uuid⟩
  · intro left right
    exact ⟨lt_iff left right, le_iff left right, eq_iff left right⟩

end Arcal.UUID
