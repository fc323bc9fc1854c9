import Arcal.Base.Value
import Arcal.Lib.Utf8

/-! The names of a generated enum class. `toName` and `fromName` share one table, in which
the place in front of the declared items belongs to `enumNotSet`. -/

namespace Arcal.Schema

def enumNames (enumValues : List String) : List Bytes :=
  utf8 "enumNotSet" :: enumValues.map utf8

/-- A declared item, or `enumNotSet`. -/
def Declared (enumValues : List String) (v : UInt32) : Prop := v.toNat ≤ enumValues.length

def toName (enumValues : List String) (v : UInt32) : Bytes :=
  (enumNames enumValues)[v.toNat]?.getD (utf8 "invalid")

/-- An item that goes by a name of the table. Whatever is not declared is called `invalid`. -/
def Named (enumValues : List String) (v : UInt32) : Prop :=
  Declared enumValues v ∨ "invalid" ∈ enumValues

def fromName [CaseTable] (name : String) (enumValues : List String) (text : Bytes) :
    Except Exc UInt32 :=
  match (enumNames enumValues).findIdx? (· == text) with
  | some i => .ok (UInt32.ofNat i)
  | none => .error (.invalidArgument
      (utf8 (xsdNameToCxx name) ++ utf8 "::fromName: unknown value: " ++ text))

def FirstOfName (enumValues : List String) (v : UInt32) : Prop :=
  ∀ earlier < v.toNat, (enumNames enumValues)[earlier]? ≠ (enumNames enumValues)[v.toNat]?

/-- The item the name of an item is read as. -/
def namesake (enumValues : List String) (v : UInt32) : UInt32 :=
  UInt32.ofNat ((enumNames enumValues).findIdx (· == toName enumValues v))

section Names

variable {enumValues : List String} {v : UInt32}

theorem enumNames_get (declared : Declared enumValues v) :
    (enumNames enumValues)[v.toNat]? = some (toName enumValues v) := by
  unfold Declared at declared
  have bound : v.toNat < (enumNames enumValues).length := by
    simp only [enumNames, List.length_cons, List.length_map]
    omega
  rw [toName, List.getElem?_eq_getElem bound, Option.getD_some]

theorem findIdx_toName_le (declared : Declared enumValues v) :
    (enumNames enumValues).findIdx (· == toName enumValues v) ≤ v.toNat := by
  have entry := enumNames_get declared
  rcases List.getElem?_eq_some_iff.mp entry with ⟨bound, same⟩
  by_contra later
  have different := List.not_of_lt_findIdx (Nat.lt_of_not_le later)
  rw [same, beq_self_eq_true] at different
  cases different

theorem toName_mem_iff : toName enumValues v ∈ enumNames enumValues ↔ Named enumValues v := by
  by_cases declared : Declared enumValues v
  · exact iff_of_true (List.mem_of_getElem? (enumNames_get declared)) (.inl declared)
  · have outside : (enumNames enumValues)[v.toNat]? = none := by
      unfold Declared at declared
      rw [List.getElem?_eq_none_iff, enumNames, List.length_cons, List.length_map]
      omega
    have other : utf8 "invalid" ≠ utf8 "enumNotSet" := by decide
    have called : ∀ value : String, utf8 value = utf8 "invalid" ↔ value = "invalid" := by
      intro value
      constructor
      · intro same
        exact String.toList_inj.mp (Utf8.encode_injective same)
      · rintro rfl
        rfl
    rw [toName, outside, Option.getD_none, enumNames, List.mem_cons, List.mem_map, Named]
    simp [other, declared, called]

theorem findIdx_toName_lt (named : Named enumValues v) :
    (enumNames enumValues).findIdx (· == toName enumValues v) < (enumNames enumValues).length ∧
      (enumNames enumValues).findIdx (· == toName enumValues v) < 2 ^ 32 := by
  have found : (enumNames enumValues).findIdx (· == toName enumValues v) <
      (enumNames enumValues).length :=
    List.findIdx_lt_length_of_exists ⟨_, toName_mem_iff.mpr named, beq_self_eq_true _⟩
  refine ⟨found, ?_⟩
  have bound := v.toNat_lt
  by_cases declared : Declared enumValues v
  · exact Nat.lt_of_le_of_lt (findIdx_toName_le declared) bound
  · have size : (enumNames enumValues).length = enumValues.length + 1 := by
      rw [enumNames, List.length_cons, List.length_map]
    unfold Declared at declared
    omega

theorem fromName_toName_iff [CaseTable] (name : String) {got : UInt32} :
    fromName name enumValues (toName enumValues v) = .ok got ↔
      Named enumValues v ∧ got = namesake enumValues v := by
  by_cases named : Named enumValues v
  · have hit : (enumNames enumValues).findIdx? (· == toName enumValues v) =
        some ((enumNames enumValues).findIdx (· == toName enumValues v)) := by
      rw [List.findIdx?_eq_guard_findIdx_lt, Option.guard_eq_some_iff]
      exact ⟨rfl, by simpa using (findIdx_toName_lt named).1⟩
    rw [fromName, hit, namesake]
    simp [named, eq_comm]
  · have miss : (enumNames enumValues).findIdx? (· == toName enumValues v) = none := by
      rw [List.findIdx?_eq_none_iff]
      intro text member
      rw [beq_eq_false_iff_ne]
      rintro rfl
      exact named (toName_mem_iff.mp member)
    rw [fromName, miss]
    simp [named]

theorem toName_namesake (named : Named enumValues v) :
    toName enumValues (namesake enumValues v) = toName enumValues v := by
  obtain ⟨found, small⟩ := findIdx_toName_lt named
  have same := List.findIdx_getElem (w := found)
  rw [toName, namesake, UInt32.toNat_ofNat', Nat.mod_eq_of_lt small,
    List.getElem?_eq_getElem found, Option.getD_some]
  exact eq_of_beq same

theorem namesake_eq_iff (declared : Declared enumValues v) :
    namesake enumValues v = v ↔ FirstOfName enumValues v := by
  have entry := enumNames_get declared
  rcases List.getElem?_eq_some_iff.mp entry with ⟨bound, same⟩
  have found := findIdx_toName_le declared
  have small := Nat.lt_of_le_of_lt found v.toNat_lt
  have index : namesake enumValues v = v ↔
      (enumNames enumValues).findIdx (· == toName enumValues v) = v.toNat := by
    rw [← UInt32.toNat_inj, namesake, UInt32.toNat_ofNat', Nat.mod_eq_of_lt small]
  rw [index, List.findIdx_eq bound, same]
  constructor
  · intro first earlier before again
    rw [entry] at again
    rcases List.getElem?_eq_some_iff.mp again with ⟨_, clash⟩
    have apart := first.2 earlier before
    rw [clash, beq_self_eq_true] at apart
    cases apart
  · intro first
    refine ⟨beq_self_eq_true _, ?_⟩
    intro earlier before
    apply beq_eq_false_iff_ne.mpr
    intro clash
    apply first earlier before
    rw [entry, List.getElem?_eq_getElem (Nat.lt_trans before bound), clash]

theorem valid_toName : Utf8.Valid (toName enumValues v) := by
  have each : ∀ text ∈ enumNames enumValues, Utf8.Valid text := by
    intro text member
    rcases List.mem_cons.mp member with same | declared
    · rw [same]
      exact ⟨_, rfl⟩
    · rcases List.mem_map.mp declared with ⟨value, _, same⟩
      rw [← same]
      exact ⟨_, rfl⟩
  rw [toName]
  cases entry : (enumNames enumValues)[v.toNat]? with
  | none => exact ⟨_, rfl⟩
  | some text => exact each text (List.mem_of_getElem? entry)

end Names

end Arcal.Schema
