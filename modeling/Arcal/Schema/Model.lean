import Mathlib.Data.List.Basic
import Mathlib.Data.String.Basic

/-! The schema compiler's model of an XSD: fields, choices, types and global
elements, and the tables that map XSD primitives to C++ types. -/

namespace Arcal

abbrev Bytes := List UInt8

def utf8 (s : String) : Bytes := s.toList.flatMap String.utf8EncodeChar

namespace Schema

inductive CxxType
  | bool | int8 | uint8 | int16 | uint16 | int32 | uint32 | int64 | uint64
  | float | double | string | bytes | uuid
  deriving DecidableEq, Repr

def uuidTypeName : String := "UniversallyUniqueIdentifierType"

def primitiveTypes : List String :=
  ["boolean", "byte", "short", "int", "long", "float", "double",
   "string", "anyURI", "dateTime", "dateTimeStamp", "unsignedByte",
   "unsignedShort", "unsignedInt", "unsignedLong", "integer", "decimal",
   "base64Binary", "hexBinary", "ID", "IDREF", "NMTOKEN", "time", "date", "duration",
   uuidTypeName]

def cxxPrimitiveMap : List (String × CxxType) :=
  [("boolean", .bool),
   ("byte", .int8), ("short", .int16), ("int", .int32), ("long", .int64),
   ("unsignedByte", .uint8), ("unsignedShort", .uint16),
   ("unsignedInt", .uint32), ("unsignedLong", .uint64),
   ("integer", .int64), ("decimal", .double),
   ("float", .float), ("double", .double),
   ("string", .string), ("anyURI", .string),
   ("dateTime", .int64), ("time", .int64), ("duration", .int64),
   ("dateTimeStamp", .string),
   ("date", .string),
   ("base64Binary", .bytes), ("hexBinary", .bytes),
   ("ID", .string), ("IDREF", .string), ("NMTOKEN", .string),
   (uuidTypeName, .uuid)]

theorem mem_primitiveTypes_iff (name : String) :
    name ∈ primitiveTypes ↔ (cxxPrimitiveMap.lookup name).isSome := by
  have forward : ∀ key ∈ primitiveTypes, (cxxPrimitiveMap.lookup key).isSome := by decide
  have backward : ∀ entry ∈ cxxPrimitiveMap, entry.1 ∈ primitiveTypes := by decide
  constructor
  · exact forward name
  · intro known
    rcases List.lookup_isSome_iff.mp known with ⟨entry, member, same⟩
    rw [eq_of_beq same]
    exact backward entry member

def localName (name : String) : String :=
  String.ofList (name.toList.reverse.takeWhile (· ≠ ':')).reverse

/-- What `str.upper` and `str.lower` make of a character, which beyond ASCII can be several. Of
those no more is used than that something is left of a character in upper case and no ASCII
lower-case letter is in it. -/
class CaseTable where
  upper : Char → List Char
  lower : Char → List Char
  upper_ascii : ∀ c, c.val < 128 → upper c = [c.toUpper]
  lower_ascii : ∀ c, c.val < 128 → lower c = [c.toLower]
  upper_ne_nil : ∀ c, upper c ≠ []
  upper_isLower : ∀ c, ∀ d ∈ upper c, d.isLower = false

def latinUpper (c : Char) : List Char :=
  if c = 'ß' then ['S', 'S'] else if c = 'é' then ['É'] else [c.toUpper]

def latinLower (c : Char) : List Char := if c = 'É' then ['é'] else [c.toLower]

theorem latinUpper_ascii (c : Char) (ascii : c.val < 128) : latinUpper c = [c.toUpper] := by
  have sharp : c ≠ 'ß' := by
    rintro rfl
    exact absurd ascii (by decide)
  have acute : c ≠ 'é' := by
    rintro rfl
    exact absurd ascii (by decide)
  rw [latinUpper, if_neg sharp, if_neg acute]

theorem latinLower_ascii (c : Char) (ascii : c.val < 128) : latinLower c = [c.toLower] := by
  have acute : c ≠ 'É' := by
    rintro rfl
    exact absurd ascii (by decide)
  rw [latinLower, if_neg acute]

theorem latinUpper_ne_nil (c : Char) : latinUpper c ≠ [] := by
  unfold latinUpper
  split
  · simp
  · split
    · simp
    · simp

theorem isLower_toUpper (c : Char) : c.toUpper.isLower = false := by
  unfold Char.isLower Char.toUpper
  split <;> grind [UInt32.toNat_add, Char.toNat_val]

theorem isLower_latinUpper (c d : Char) (member : d ∈ latinUpper c) : d.isLower = false := by
  unfold latinUpper at member
  split at member
  · rcases List.mem_pair.mp member with rfl | rfl
    · decide
    · decide
  · split at member
    · rw [List.mem_singleton.mp member]
      decide
    · rw [List.mem_singleton.mp member]
      exact isLower_toUpper c

/-- ASCII and three letters beyond it. -/
@[reducible] def latinCase : CaseTable where
  upper := latinUpper
  lower := latinLower
  upper_ascii := latinUpper_ascii
  lower_ascii := latinLower_ascii
  upper_ne_nil := latinUpper_ne_nil
  upper_isLower := isLower_latinUpper

/-- The class name of an XSD name: the namespace prefix goes, the first letter is upper case. -/
def xsdNameToCxx [CaseTable] (name : String) : String :=
  match (localName name).toList with
  | [] => localName name
  | head :: rest => String.ofList (CaseTable.upper head ++ rest)

def firstLetterToLower [CaseTable] (s : String) : String :=
  match s.toList with
  | [] => s
  | head :: rest => String.ofList (CaseTable.lower head ++ rest)

def fnv1a32 (s : String) : UInt32 :=
  (utf8 s).foldl (fun h c => (h ^^^ c.toUInt32) * 16777619) 2166136261

inductive ListKind
  | bounded | unbounded
  deriving DecidableEq, Repr

/-- An `xs:element`; `maxOccursVal` is -1 for "unbounded". -/
structure FieldModel where
  name : String
  typeName : String
  minOccurs : Nat
  maxOccursVal : Int
  deriving DecidableEq, Repr

namespace FieldModel

def optional (field : FieldModel) : Bool :=
  field.minOccurs == 0 && field.maxOccursVal == 1

def listKind (field : FieldModel) : Option ListKind :=
  if field.maxOccursVal = -1 then some .unbounded
  else if field.maxOccursVal > 1 then some .bounded
  else none

def isUuid (field : FieldModel) : Bool := field.typeName == uuidTypeName

end FieldModel

structure ChoiceModel where
  variants : List FieldModel
  deriving DecidableEq, Repr

inductive TypeKind
  | complex (fields : List FieldModel) (choices : List ChoiceModel) (baseType : Option String)
  | enumeration (enumValues : List String)
  | simpleRestriction (restrictionXsdBase : String)
  deriving DecidableEq, Repr

structure TypeModel where
  name : String
  kind : TypeKind
  deriving DecidableEq, Repr

namespace TypeModel

def isSimpleRestriction (m : TypeModel) : Bool :=
  match m.kind with
  | .simpleRestriction _ => true
  | _ => false

def isComplex (m : TypeModel) : Bool :=
  match m.kind with
  | .complex .. => true
  | _ => false

end TypeModel

/-- The C++ base a simple restriction resolves to; anything that is not a primitive is a string. -/
def restrictionCxxBaseType (name restrictionXsdBase : String) : CxxType :=
  if name = uuidTypeName then .uuid
  else (cxxPrimitiveMap.lookup restrictionXsdBase).getD .string

structure GlobalElementModel where
  name : String
  typeName : String
  deriving DecidableEq, Repr

end Schema

open Schema in
/-- A parsed schema. The parser keeps its types in a dict, so their names are distinct. -/
structure SchemaModel where
  types : List TypeModel
  globalElements : List GlobalElementModel
  nodupNames : (types.map TypeModel.name).Nodup

namespace SchemaModel

open Schema

def find (schema : SchemaModel) (name : String) : Option TypeModel :=
  schema.types.find? fun m => m.name == name

theorem find_name {schema : SchemaModel} {name : String} {m : TypeModel}
    (found : schema.find name = some m) : m.name = name := by
  have hit := List.find?_some found
  simpa using hit

theorem find_mem {schema : SchemaModel} {name : String} {m : TypeModel}
    (found : schema.find name = some m) : m ∈ schema.types :=
  List.mem_of_find?_eq_some found

theorem find_of_mem (schema : SchemaModel) {m : TypeModel} (member : m ∈ schema.types) :
    schema.find m.name = some m := by
  have distinct := schema.nodupNames
  unfold find
  generalize schema.types = types at member distinct
  induction types with
  | nil => cases member
  | cons first rest ih =>
      rw [List.map_cons, List.nodup_cons] at distinct
      rcases List.mem_cons.mp member with same | later
      · subst same
        simp
      · have other : first.name ≠ m.name := by
          intro clash
          exact distinct.1 (clash ▸ List.mem_map_of_mem later)
        rw [List.find?_cons_of_neg (by simpa using other)]
        exact ih later distinct.2

end SchemaModel

end Arcal
