import Arcal.Lib.Table
import Arcal.Lib.Worklist
import Arcal.Schema.Layout

/-! What a subset configuration selects from a schema: `SchemaParser.select_subset`. -/

namespace Arcal.Compiler

open Schema Worklist

/-- The two lists of a `SubsetConfig` that select anything. -/
structure SubsetConfig where
  messageTypes : List String
  accessorTypes : List String
  deriving DecidableEq, Repr

def cxxTypeName : CxxType → String
  | .bool => "bool"
  | .int8 => "int8_t"
  | .uint8 => "uint8_t"
  | .int16 => "int16_t"
  | .uint16 => "uint16_t"
  | .int32 => "int32_t"
  | .uint32 => "uint32_t"
  | .int64 => "int64_t"
  | .uint64 => "uint64_t"
  | .float => "float"
  | .double => "double"
  | .string => "std::string"
  | .bytes => "std::vector<uint8_t>"
  | .uuid => "uci::base::UUID"

/-- The member `base_type`: a simple restriction keeps its C++ type there. -/
def modelBaseType (m : TypeModel) : Option String :=
  match m.kind with
  | .complex _ _ baseType => baseType
  | .enumeration _ => none
  | .simpleRestriction base => some (cxxTypeName (restrictionCxxBaseType m.name base))

def cxxName [CaseTable] (m : TypeModel) : String := xsdNameToCxx m.name

def commaSeparated (names : List String) : String := String.intercalate ", " names

def sorted (names : List String) : List String := names.mergeSort fun a b => a ≤ b

/-- The loop of both resolvers: every request is looked up, a hit is kept once. -/
def resolveLoop {β : Type} (lookup : Table String β) (nameOf : β → String) (selected : List β)
    (missing : List String) : List String → List β × List String
  | [] => (selected, missing)
  | requested :: rest =>
      match lookup.find requested with
      | none => resolveLoop lookup nameOf selected (missing ++ [requested]) rest
      | some hit =>
          if nameOf hit ∈ selected.map nameOf then resolveLoop lookup nameOf selected missing rest
          else resolveLoop lookup nameOf (selected ++ [hit]) missing rest

/-- The four keys of a global element; the first element with a key has it. -/
def globalLookup [CaseTable] (elements : List GlobalElementModel) :
    Table String GlobalElementModel :=
  elements.foldl (fun lookup elem =>
    [elem.name, xsdNameToCxx elem.name, elem.typeName, xsdNameToCxx elem.typeName].foldl
      (fun lookup key => lookup.setdefault key elem) lookup) Table.empty

def resolveGlobalElements [CaseTable] (schema : SchemaModel) (requestedMessageTypes : List String) :
    Except Bytes (List GlobalElementModel) :=
  let (selected, missing) := resolveLoop (globalLookup schema.globalElements)
    GlobalElementModel.name [] [] requestedMessageTypes
  if missing ≠ [] then
    .error (utf8 ("unknown subset message type(s): " ++ commaSeparated missing ++
      "\nknown global element names include: " ++
      commaSeparated (sorted (schema.globalElements.map GlobalElementModel.name))))
  else .ok selected

def typeLookup [CaseTable] (types : List TypeModel) : Table String String :=
  types.foldl (fun lookup m =>
    (lookup.setdefault m.name m.name).setdefault (cxxName m) m.name) Table.empty

def resolveTypeRoots [CaseTable] (schema : SchemaModel) (requestedAccessorTypes : List String) :
    Except Bytes (List String) :=
  let (resolved, missing) := resolveLoop (typeLookup schema.types) id [] [] requestedAccessorTypes
  if missing ≠ [] then
    .error (utf8 ("unknown subset accessor type(s): " ++ commaSeparated missing ++
      "\nknown accessor type names include: " ++
      commaSeparated (sorted (schema.types.map TypeModel.name))))
  else .ok resolved

/-- The names a type pushes: its base and what its fields and variants are declared with, as
far as the schema has them. -/
def references (schema : SchemaModel) (m : TypeModel) : List String :=
  ((modelBaseType m).toList.filter fun name => name ≠ "" ∧ (schema.find name).isSome) ++
    (elementTypes m).filter fun name => (schema.find name).isSome

def typeDependencies (schema : SchemaModel) : Dependencies String where
  nodes := schema.types.map TypeModel.name
  next name := ((schema.find name).map (references schema)).getD []

def collectRequiredTypeNames (schema : SchemaModel) (selectedGlobals : List GlobalElementModel)
    (selectedTypeRoots : List String) : List String :=
  (typeDependencies schema).collect []
    (Dependencies.push (selectedGlobals.map GlobalElementModel.typeName ++ selectedTypeRoots) [])

def selectSubset [CaseTable] (schema : SchemaModel) (config : SubsetConfig) :
    Except Bytes (List GlobalElementModel × List TypeModel) := do
  let selectedGlobals ← resolveGlobalElements schema config.messageTypes
  let selectedTypeRoots ← resolveTypeRoots schema config.accessorTypes
  let required := collectRequiredTypeNames schema selectedGlobals selectedTypeRoots
  return (schema.globalElements.filter fun elem =>
      elem.name ∈ selectedGlobals.map GlobalElementModel.name,
    schema.types.filter fun m => m.name ∈ required)

end Arcal.Compiler
