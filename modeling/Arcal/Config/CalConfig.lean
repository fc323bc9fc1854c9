import Arcal.Json.Primitives
import Arcal.Lib.Holds

/-! `CalConfig.cpp`: the identity of a service in the configured system. -/

namespace Arcal.Config

open JsonText (Value)

abbrev Members := List (Bytes × Value)

abbrev NamedUUIDs := Finmap fun _ : Bytes => UUID

structure ServiceInfo where
  serviceUUID : UUID
  subsystemUUID : UUID
  deriving DecidableEq

abbrev Services := Finmap fun _ : Bytes => ServiceInfo

structure CalIdentity where
  configured : Bool := false
  systemLabel : Bytes
  serviceLabel : Bytes
  systemUUID : UUID
  serviceUUID : UUID
  subsystemUUID : UUID
  componentUUIDs : NamedUUIDs := ∅
  capabilityUUIDs : NamedUUIDs := ∅

def refuse {α : Type} (parts : List Bytes) : Except Exc α :=
  .error (.uciException (utf8 "CAL config: " ++ parts.flatten))

def requireString (object : Members) (key context : Bytes) : Except Exc Bytes :=
  match Json.find object key with
  | some (.string text) => .ok text
  | _ => refuse [context, utf8 " must contain string '", key, utf8 "'"]

def requireUUID (object : Members) (key context : Bytes) : Except Exc UUID :=
  match requireString object key context >>= UUID.fromString with
  | .ok uuid => .ok uuid
  | .error e => refuse [utf8 "invalid UUID for ", context, utf8 ".", key, utf8 ": ", e.what]

/-- The entries to loop over: none when there is no such member. -/
def requireArrayIfPresent (object : Members) (key context : Bytes) : Except Exc (List Value) :=
  match Json.find object key with
  | none => .ok []
  | some (.array items) => .ok items
  | some _ => refuse [context, utf8 ".", key, utf8 " must be an array"]

/-- The loop that `parseNamedUUIDs` and `parseServices` have in common: `make` is what is kept
for a name, `kind` how a name that comes again is called. -/
def parseEntries {β : Type} (make : UUID → β) (kind key context : Bytes) :
    List Value → (Finmap fun _ : Bytes => β) → Except Exc (Finmap fun _ : Bytes => β)
  | [], out => .ok out
  | .object item :: rest, out => do
      let name ← requireString item (utf8 "name") (context ++ utf8 "." ++ key ++ utf8 "[]")
      let uuid ← requireUUID item (utf8 "uuid")
        (context ++ utf8 "." ++ key ++ utf8 "[" ++ name ++ utf8 "]")
      if name ∈ out then
        refuse [utf8 "duplicate ", kind, utf8 " name '", name, utf8 "' in selected system"]
      else parseEntries make kind key context rest (out.insert name (make uuid))
  | _ :: _, _ => refuse [utf8 "entries in ", context, utf8 ".", key, utf8 " must be objects"]

def parseNamedUUIDs (parent : Members) (key context : Bytes) (out : NamedUUIDs) :
    Except Exc NamedUUIDs := do
  let items ← requireArrayIfPresent parent key context
  parseEntries id key key context items out

def parseServices (parent : Members) (context : Bytes) (subsystemUUID : UUID) (out : Services) :
    Except Exc Services := do
  let items ← requireArrayIfPresent parent (utf8 "services") context
  parseEntries (fun serviceUUID => ⟨serviceUUID, subsystemUUID⟩) (utf8 "service")
    (utf8 "services") context items out

def findSystem (selectedSystem : Bytes) : List Value → Except Exc Members
  | [] =>
      refuse [utf8 "ARCAL_SYSTEM '", selectedSystem, utf8 "' is not present in config"]
  | .object system :: rest => do
      let name ← requireString system (utf8 "name") (utf8 "systems[]")
      if name = selectedSystem then .ok system else findSystem selectedSystem rest
  | _ :: _ => refuse [utf8 "entries in systems must be objects"]

/-- `selected` is the environment variable `ARCAL_SYSTEM`. -/
def selectSystem (document : Value) (selected : Option Bytes) : Except Exc Members :=
  match document with
  | .object members =>
      match Json.find members (utf8 "systems") with
      | some (.array (first :: rest)) =>
          if selected.getD [] = [] then
            match first, rest with
            | .object system, [] => .ok system
            | _, [] => refuse [utf8 "entries in systems must be objects"]
            | _, _ => refuse
                [utf8 "ARCAL_SYSTEM must select one of multiple configured systems"]
          else findSystem (selected.getD []) (first :: rest)
      | _ => refuse [utf8 "root must contain non-empty array 'systems'"]
  | _ => refuse [utf8 "root must be an object"]

/-- The three maps that are filled on the way through the system. -/
structure Tables where
  services : Services := ∅
  components : NamedUUIDs := ∅
  capabilities : NamedUUIDs := ∅

def parsePart (members : Members) (context : Bytes) (subsystemUUID : UUID) (tables : Tables) :
    Except Exc Tables := do
  let services ← parseServices members context subsystemUUID tables.services
  let components ← parseNamedUUIDs members (utf8 "components") context tables.components
  let capabilities ← parseNamedUUIDs members (utf8 "capabilities") context tables.capabilities
  return ⟨services, components, capabilities⟩

def parseSubsystems (systemName : Bytes) :
    List Value → Finset Bytes → Tables → Except Exc Tables
  | [], _, tables => .ok tables
  | .object subsystem :: rest, names, tables => do
      let subsystemName ← requireString subsystem (utf8 "name") (utf8 "subsystems[]")
      if subsystemName ∈ names then
        refuse [utf8 "duplicate subsystem name '", subsystemName, utf8 "' in selected system"]
      else
        let subsystemUUID ←
          requireUUID subsystem (utf8 "uuid") (utf8 "subsystem " ++ subsystemName)
        let tables ←
          parsePart subsystem (utf8 "subsystem " ++ subsystemName) subsystemUUID tables
        parseSubsystems systemName rest (insert subsystemName names) tables
  | _ :: _, _, _ =>
      refuse [utf8 "entries in system ", systemName, utf8 ".subsystems must be objects"]

/-- `simpleNameHash`, on the sixteen octets of the namespace. -/
def simpleNameHash (ns name : List UInt8) : List UInt8 :=
  let out := name.zipIdx.foldl (fun out (c, i) =>
    out.modify (i % 16) fun octet => (octet ^^^ c) <<< 1 ||| (octet ^^^ c) >>> 7) ns
  (out.modify 6 fun octet => octet &&& 0x0f ||| 0x30).modify 8
    fun octet => octet &&& 0x3f ||| 0x80

theorem simpleNameHash_length (ns name : List UInt8) :
    (simpleNameHash ns name).length = ns.length := by
  have each : ∀ (cells : List (UInt8 × Nat)) (out : List UInt8),
      (cells.foldl (fun out (c, i) =>
        out.modify (i % 16) fun octet => (octet ^^^ c) <<< 1 ||| (octet ^^^ c) >>> 7)
          out).length = out.length := by
    intro cells
    induction cells with
    | nil => exact fun _ => rfl
    | cons cell rest ih =>
        intro out
        rw [List.foldl_cons, ih, List.length_modify]
  rw [simpleNameHash, List.length_modify, List.length_modify, each]

def createVersion3UUID (ns : UUID) (name : Bytes) : UUID :=
  ⟨simpleNameHash ns.octets name, (simpleNameHash_length ns.octets name).trans ns.sixteen⟩

/-- `getNamespaceUUID`: 6ba7b810-9dad-11d1-80b4-00c04fd430c8 -/
def namespaceUUID : UUID :=
  ⟨[0x6b, 0xa7, 0xb8, 0x10, 0x9d, 0xad, 0x11, 0xd1, 0x80, 0xb4, 0x00, 0xc0, 0x4f, 0xd4, 0x30, 0xc8],
    rfl⟩

def makeFallbackIdentity (serviceLabel : Bytes) : CalIdentity :=
  let serviceUUID := createVersion3UUID namespaceUUID serviceLabel
  { systemLabel := utf8 "system"
    serviceLabel
    systemUUID := createVersion3UUID namespaceUUID (utf8 "system")
    serviceUUID
    subsystemUUID := createVersion3UUID serviceUUID (utf8 "subsystem") }

structure Environment where
  arcalConfig : Option Bytes
  arcalSystem : Option Bytes

/-- `readConfigFile` opens and parses a file. -/
def resolveCalIdentity (readConfigFile : Bytes → Except Exc Value) (environment : Environment)
    (serviceLabel : Bytes) : Except Exc CalIdentity :=
  let configPath := environment.arcalConfig.getD []
  if configPath = utf8 "NONE" then .ok (makeFallbackIdentity serviceLabel)
  else if configPath = [] then
    refuse [utf8 "ARCAL_CONFIG must name a config file or be explicitly set to NONE"]
  else do
    let document ← readConfigFile configPath
    let system ← selectSystem document environment.arcalSystem
    let systemName ← requireString system (utf8 "name") (utf8 "selected system")
    let systemUUID ← requireUUID system (utf8 "uuid") (utf8 "system " ++ systemName)
    let tables ← parsePart system (utf8 "system " ++ systemName) UUID.nil {}
    let subsystems ←
      requireArrayIfPresent system (utf8 "subsystems") (utf8 "system " ++ systemName)
    let tables ← parseSubsystems systemName subsystems ∅ tables
    match tables.services.lookup serviceLabel with
    | none =>
        refuse [utf8 "service '", serviceLabel, utf8 "' is not configured in system '",
          systemName, utf8 "'"]
    | some service => .ok {
        configured := true
        systemLabel := systemName
        serviceLabel
        systemUUID
        serviceUUID := service.serviceUUID
        subsystemUUID := service.subsystemUUID
        componentUUIDs := tables.components
        capabilityUUIDs := tables.capabilities }

end Arcal.Config
