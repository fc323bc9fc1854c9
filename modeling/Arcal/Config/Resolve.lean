import Arcal.Config.CalConfig
import Mathlib.Data.List.Forall2
import Mathlib.Data.List.Perm.Basic

/-! What a configuration declares, and that the resolved identity is what it declares. -/

namespace Arcal.Config

open JsonText (Value)

def ArrayIfPresent (object : Members) (key : Bytes) (items : List Value) : Prop :=
  Json.find object key = none ∧ items = [] ∨ Json.find object key = some (.array items)

def HasString (object : Members) (key text : Bytes) : Prop :=
  Json.find object key = some (.string text)

def HasUUID (object : Members) (key : Bytes) (uuid : UUID) : Prop :=
  ∃ text, HasString object key text ∧ UUID.fromString text = .ok uuid

def DeclaresEntry (item : Value) (entry : Bytes × UUID) : Prop :=
  ∃ members, item = .object members ∧ HasString members (utf8 "name") entry.1 ∧
    HasUUID members (utf8 "uuid") entry.2

def DeclaresEntries (object : Members) (key : Bytes) (entries : List (Bytes × UUID)) : Prop :=
  ∃ items, ArrayIfPresent object key items ∧ List.Forall₂ DeclaresEntry items entries

structure Part where
  name : Bytes
  uuid : UUID
  services : List (Bytes × UUID)
  components : List (Bytes × UUID)
  capabilities : List (Bytes × UUID)

structure DeclaresPart (object : Members) (part : Part) : Prop where
  name : HasString object (utf8 "name") part.name
  uuid : HasUUID object (utf8 "uuid") part.uuid
  services : DeclaresEntries object (utf8 "services") part.services
  components : DeclaresEntries object (utf8 "components") part.components
  capabilities : DeclaresEntries object (utf8 "capabilities") part.capabilities

def DeclaresSubsystem (item : Value) (part : Part) : Prop :=
  ∃ members, item = .object members ∧ DeclaresPart members part

structure DeclaresSystem (object : Members) (root : Part) (subsystems : List Part) : Prop where
  root : DeclaresPart object root
  subsystems : ∃ items, ArrayIfPresent object (utf8 "subsystems") items ∧
    List.Forall₂ DeclaresSubsystem items subsystems

def Part.servicesOf (part : Part) (subsystemUUID : UUID) : List (Bytes × ServiceInfo) :=
  part.services.map fun entry => (entry.1, ⟨entry.2, subsystemUUID⟩)

/-- The services of a system: those of the root are in no subsystem. -/
def allServices (root : Part) (subsystems : List Part) : List (Bytes × ServiceInfo) :=
  root.servicesOf UUID.nil ++ subsystems.flatMap fun part => part.servicesOf part.uuid

def allComponents (root : Part) (subsystems : List Part) : List (Bytes × UUID) :=
  root.components ++ subsystems.flatMap Part.components

def allCapabilities (root : Part) (subsystems : List Part) : List (Bytes × UUID) :=
  root.capabilities ++ subsystems.flatMap Part.capabilities

/-- Names are unique across the root and all subsystems together. -/
structure Distinct (root : Part) (subsystems : List Part) : Prop where
  services : ((allServices root subsystems).map Prod.fst).Nodup
  components : ((allComponents root subsystems).map Prod.fst).Nodup
  capabilities : ((allCapabilities root subsystems).map Prod.fst).Nodup
  subsystems : (subsystems.map Part.name).Nodup

/-- The service is one of those declared, and the maps are the unions of the declarations. -/
structure DeclaredIdentity (root : Part) (subsystems : List Part) (serviceLabel : Bytes)
    (identity : CalIdentity) : Prop where
  configured : identity.configured = true
  systemLabel : identity.systemLabel = root.name
  label : identity.serviceLabel = serviceLabel
  systemUUID : identity.systemUUID = root.uuid
  service : (serviceLabel, ⟨identity.serviceUUID, identity.subsystemUUID⟩) ∈
    allServices root subsystems
  components : ∀ name uuid, identity.componentUUIDs.lookup name = some uuid ↔
    (name, uuid) ∈ allComponents root subsystems
  capabilities : ∀ name uuid, identity.capabilityUUIDs.lookup name = some uuid ↔
    (name, uuid) ∈ allCapabilities root subsystems

theorem bind_eq_ok {α β : Type} {run : Except Exc α} {next : α → Except Exc β} {result : β} :
    (run >>= next) = .ok result ↔ ∃ value, run = .ok value ∧ next value = .ok result := by
  cases run with
  | error e => simp [bind, Except.bind]
  | ok value => simp [bind, Except.bind]

theorem requireString_ok {object : Members} {key context text : Bytes} :
    requireString object key context = .ok text ↔ HasString object key text := by
  unfold requireString HasString
  split
  · next found => simp [found]
  · next other =>
    constructor
    · intro failed
      cases failed
    · intro found
      exact absurd found (other text)

theorem requireUUID_ok {object : Members} {key context : Bytes} {uuid : UUID} :
    requireUUID object key context = .ok uuid ↔ HasUUID object key uuid := by
  have read : (requireString object key context >>= UUID.fromString) = .ok uuid ↔
      HasUUID object key uuid := by
    rw [bind_eq_ok]
    simp only [requireString_ok]
    rfl
  rw [← read]
  unfold requireUUID
  split
  · next found => rw [found]
  · next e failed =>
    rw [failed]
    constructor
    · intro refused
      cases refused
    · intro refused
      cases refused

theorem requireArrayIfPresent_ok {object : Members} {key context : Bytes} {items : List Value} :
    requireArrayIfPresent object key context = .ok items ↔ ArrayIfPresent object key items := by
  unfold requireArrayIfPresent ArrayIfPresent
  split
  · next absent => simp [absent, eq_comm]
  · next found => simp [found]
  · next value notArray found =>
    constructor
    · intro refused
      cases refused
    · intro given
      rcases given with ⟨absent, _⟩ | isArray
      · rw [found] at absent
        cases absent
      · rw [found] at isArray
        injection isArray with same
        exact absurd same (notArray items)

section Entries

variable {β : Type} {make : UUID → β} {kind key context : Bytes}

theorem parseEntries_ok {items : List Value} {out out' : Finmap fun _ : Bytes => β}
    {held : List (Bytes × β)} (holds : Holds out held) :
    parseEntries make kind key context items out = .ok out' ↔
      ∃ entries, List.Forall₂ DeclaresEntry items entries ∧
        Holds out' (held ++ entries.map fun entry => (entry.1, make entry.2)) := by
  induction items generalizing out held with
  | nil =>
      simp only [parseEntries, Except.ok.injEq, List.forall₂_nil_left_iff, exists_eq_left,
        List.map_nil, List.append_nil]
      constructor
      · intro same
        rw [← same]
        exact holds
      · exact holds.unique
  | cons item rest ih =>
      have shape : (∃ entries, List.Forall₂ DeclaresEntry (item :: rest) entries ∧
          Holds out' (held ++ entries.map fun entry => (entry.1, make entry.2))) ↔
          ∃ members name uuid, item = .object members ∧ HasString members (utf8 "name") name ∧
            HasUUID members (utf8 "uuid") uuid ∧ ∃ entries,
              List.Forall₂ DeclaresEntry rest entries ∧
              Holds out' (held ++ [(name, make uuid)] ++
                entries.map fun entry => (entry.1, make entry.2)) := by
        simp only [List.forall₂_cons_left_iff, DeclaresEntry]
        constructor
        · intro given
          rcases given with ⟨_, ⟨entry, entries, ⟨members, isObject, name, uuid⟩, later, rfl⟩, all⟩
          rw [List.map_cons, ← List.singleton_append, ← List.append_assoc] at all
          exact ⟨members, entry.1, entry.2, isObject, name, uuid, entries, later, all⟩
        · intro given
          rcases given with ⟨members, name, uuid, isObject, hasName, hasUuid, entries, later, all⟩
          refine ⟨(name, uuid) :: entries, ⟨(name, uuid), entries,
            ⟨members, isObject, hasName, hasUuid⟩, later, rfl⟩, ?_⟩
          rw [List.map_cons, ← List.singleton_append, ← List.append_assoc]
          exact all
      rw [shape]
      cases item with
      | object members =>
          simp only [parseEntries, bind_eq_ok, requireString_ok, requireUUID_ok]
          constructor
          · intro given
            rcases given with ⟨name, hasName, uuid, hasUuid, run⟩
            by_cases used : name ∈ out
            · rw [if_pos used] at run
              cases run
            · rw [if_neg used, ih (holds.insert used (make uuid))] at run
              exact ⟨members, name, uuid, rfl, hasName, hasUuid, run⟩
          · intro given
            rcases given with ⟨members', name, uuid, isObject, hasName, hasUuid, entries, later, all⟩
            injection isObject with same
            rw [← same] at hasName hasUuid
            have fresh : name ∉ out := by
              rw [holds.mem_iff]
              have distinct := all.distinct
              rw [List.map_append, List.map_append, List.map_singleton] at distinct
              have apart := (List.nodup_append.mp (List.nodup_append.mp distinct).1).2.2
              intro inside
              exact apart name inside name (List.mem_singleton_self _) rfl
            refine ⟨name, hasName, uuid, hasUuid, ?_⟩
            rw [if_neg fresh, ih (holds.insert fresh (make uuid))]
            exact ⟨entries, later, all⟩
      | null => simp [parseEntries, refuse]
      | bool b => simp [parseEntries, refuse]
      | number literal => simp [parseEntries, refuse]
      | string text => simp [parseEntries, refuse]
      | array items => simp [parseEntries, refuse]

end Entries

structure TablesHold (tables : Tables) (services : List (Bytes × ServiceInfo))
    (components capabilities : List (Bytes × UUID)) : Prop where
  services : Holds tables.services services
  components : Holds tables.components components
  capabilities : Holds tables.capabilities capabilities

theorem TablesHold.front {tables : Tables} {services services' : List (Bytes × ServiceInfo)}
    {components components' capabilities capabilities' : List (Bytes × UUID)}
    (holds : TablesHold tables (services ++ services') (components ++ components')
      (capabilities ++ capabilities')) :
    ∃ front, TablesHold front services components capabilities := by
  rcases holds.services.exists_front with ⟨first, holdsServices⟩
  rcases holds.components.exists_front with ⟨second, holdsComponents⟩
  rcases holds.capabilities.exists_front with ⟨third, holdsCapabilities⟩
  exact ⟨⟨first, second, third⟩, holdsServices, holdsComponents, holdsCapabilities⟩

theorem exists_declaresEntries {parent : Members} {key : Bytes}
    {holds : List (Bytes × UUID) → Prop} :
    (∃ items, ArrayIfPresent parent key items ∧
      ∃ entries, List.Forall₂ DeclaresEntry items entries ∧ holds entries) ↔
      ∃ entries, DeclaresEntries parent key entries ∧ holds entries := by
  constructor
  · intro given
    rcases given with ⟨items, isArray, entries, declared, all⟩
    exact ⟨entries, ⟨items, isArray, declared⟩, all⟩
  · intro given
    rcases given with ⟨entries, ⟨items, isArray, declared⟩, all⟩
    exact ⟨items, isArray, entries, declared, all⟩

theorem parseNamedUUIDs_ok {parent : Members} {key context : Bytes} {out out' : NamedUUIDs}
    {held : List (Bytes × UUID)} (holds : Holds out held) :
    parseNamedUUIDs parent key context out = .ok out' ↔
      ∃ entries, DeclaresEntries parent key entries ∧ Holds out' (held ++ entries) := by
  simp only [parseNamedUUIDs, bind_eq_ok, requireArrayIfPresent_ok, parseEntries_ok holds, id,
    List.map_id']
  exact exists_declaresEntries

theorem parseServices_ok {parent : Members} {context : Bytes} {subsystemUUID : UUID}
    {out out' : Services} {held : List (Bytes × ServiceInfo)} (holds : Holds out held) :
    parseServices parent context subsystemUUID out = .ok out' ↔
      ∃ entries, DeclaresEntries parent (utf8 "services") entries ∧
        Holds out' (held ++ entries.map fun entry => (entry.1, ⟨entry.2, subsystemUUID⟩)) := by
  simp only [parseServices, bind_eq_ok, requireArrayIfPresent_ok, parseEntries_ok holds]
  exact exists_declaresEntries

theorem parsePart_ok {members : Members} {context name : Bytes} {uuid subsystemUUID : UUID}
    {tables tables' : Tables} {services : List (Bytes × ServiceInfo)}
    {components capabilities : List (Bytes × UUID)}
    (hasName : HasString members (utf8 "name") name) (hasUuid : HasUUID members (utf8 "uuid") uuid)
    (holds : TablesHold tables services components capabilities) :
    parsePart members context subsystemUUID tables = .ok tables' ↔
      ∃ part : Part, part.name = name ∧ part.uuid = uuid ∧ DeclaresPart members part ∧
        TablesHold tables' (services ++ part.servicesOf subsystemUUID)
          (components ++ part.components) (capabilities ++ part.capabilities) := by
  simp only [parsePart, bind_eq_ok, parseServices_ok holds.services,
    parseNamedUUIDs_ok holds.components, parseNamedUUIDs_ok holds.capabilities]
  constructor
  · intro given
    rcases given with ⟨services', ⟨serviceList, declaredServices, allServices⟩,
      components', ⟨componentList, declaredComponents, allComponents⟩,
      capabilities', ⟨capabilityList, declaredCapabilities, allCapabilities⟩, same⟩
    injection same with same
    rw [← same]
    exact ⟨⟨name, uuid, serviceList, componentList, capabilityList⟩, rfl, rfl,
      ⟨hasName, hasUuid, declaredServices, declaredComponents, declaredCapabilities⟩,
      ⟨allServices, allComponents, allCapabilities⟩⟩
  · intro given
    rcases given with ⟨part, _, _, declared, all⟩
    exact ⟨tables'.services, ⟨part.services, declared.services, all.services⟩,
      tables'.components, ⟨part.components, declared.components, all.components⟩,
      tables'.capabilities, ⟨part.capabilities, declared.capabilities, all.capabilities⟩, rfl⟩

theorem parseSubsystems_ok {systemName : Bytes} {items : List Value} {names : Finset Bytes}
    {tables tables' : Tables} {services : List (Bytes × ServiceInfo)}
    {components capabilities : List (Bytes × UUID)}
    (holds : TablesHold tables services components capabilities) :
    parseSubsystems systemName items names tables = .ok tables' ↔
      ∃ parts, List.Forall₂ DeclaresSubsystem items parts ∧ (parts.map Part.name).Nodup ∧
        (∀ part ∈ parts, part.name ∉ names) ∧
        TablesHold tables' (services ++ parts.flatMap fun part => part.servicesOf part.uuid)
          (components ++ parts.flatMap Part.components)
          (capabilities ++ parts.flatMap Part.capabilities) := by
  induction items generalizing names tables services components capabilities with
  | nil =>
      simp only [parseSubsystems, Except.ok.injEq, List.forall₂_nil_left_iff, exists_eq_left,
        List.flatMap_nil, List.append_nil, List.map_nil, List.nodup_nil, true_and,
        List.not_mem_nil, false_implies, implies_true]
      constructor
      · intro same
        rw [← same]
        exact holds
      · intro all
        have first := holds.services.unique all.services
        have second := holds.components.unique all.components
        have third := holds.capabilities.unique all.capabilities
        cases tables
        cases tables'
        simp only at first second third
        rw [first, second, third]
  | cons item rest ih =>
      cases item with
      | object members =>
          simp only [parseSubsystems, bind_eq_ok, requireString_ok]
          constructor
          · intro given
            rcases given with ⟨name, hasName, run⟩
            by_cases used : name ∈ names
            · rw [if_pos used] at run
              cases run
            · rw [if_neg used] at run
              rcases bind_eq_ok.mp run with ⟨uuid, hasUuid, run⟩
              rw [requireUUID_ok] at hasUuid
              rcases bind_eq_ok.mp run with ⟨mid, parsed, run⟩
              rcases (parsePart_ok hasName hasUuid holds).mp parsed with
                ⟨part, isName, isUuid, declared, mids⟩
              rcases (ih mids).mp run with ⟨parts, later, distinct, fresh, all⟩
              refine ⟨part :: parts, .cons ⟨members, rfl, declared⟩ later, ?_, ?_, ?_⟩
              · rw [List.map_cons, List.nodup_cons]
                refine ⟨?_, distinct⟩
                intro inside
                rcases List.mem_map.mp inside with ⟨other, member, same⟩
                apply fresh other member
                rw [same, isName]
                exact Finset.mem_insert_self _ _
              · intro other member
                rcases List.mem_cons.mp member with here | there
                · rw [here, isName]
                  exact used
                · intro inside
                  exact fresh other there (Finset.mem_insert_of_mem inside)
              · rw [isUuid.symm] at all
                simp only [List.flatMap_cons, ← List.append_assoc]
                exact all
          · intro given
            rcases given with ⟨parts, declared, distinct, fresh, all⟩
            rcases List.forall₂_cons_left_iff.mp declared with
              ⟨part, parts', ⟨members', isObject, isPart⟩, later, same⟩
            injection isObject with isMembers
            rw [← isMembers] at isPart
            subst same
            rw [List.map_cons, List.nodup_cons] at distinct
            simp only [List.flatMap_cons, ← List.append_assoc] at all
            rcases all.front with ⟨mid, mids⟩
            refine ⟨part.name, isPart.name, ?_⟩
            rw [if_neg (fresh part List.mem_cons_self)]
            apply bind_eq_ok.mpr ⟨part.uuid, requireUUID_ok.mpr isPart.uuid, _⟩
            apply bind_eq_ok.mpr ⟨mid, (parsePart_ok isPart.name isPart.uuid holds).mpr
              ⟨part, rfl, rfl, isPart, mids⟩, _⟩
            apply (ih mids).mpr ⟨parts', later, distinct.2, _, all⟩
            intro other member inside
            rcases Finset.mem_insert.mp inside with same | old
            · apply distinct.1
              rw [← same]
              exact List.mem_map_of_mem member
            · exact fresh other (List.mem_cons_of_mem _ member) old
      | null => simp [parseSubsystems, refuse, DeclaresSubsystem, List.forall₂_cons_left_iff]
      | bool b => simp [parseSubsystems, refuse, DeclaresSubsystem, List.forall₂_cons_left_iff]
      | number literal =>
          simp [parseSubsystems, refuse, DeclaresSubsystem, List.forall₂_cons_left_iff]
      | string text =>
          simp [parseSubsystems, refuse, DeclaresSubsystem, List.forall₂_cons_left_iff]
      | array items =>
          simp [parseSubsystems, refuse, DeclaresSubsystem, List.forall₂_cons_left_iff]

theorem tablesHold_empty : TablesHold {} [] [] [] := ⟨.empty, .empty, .empty⟩

/-- A configuration is accepted exactly when the selected system declares everything it has
to, with distinct names, and the identity is the declared one. -/
theorem resolveCalIdentity_ok {readConfigFile : Bytes → Except Exc Value}
    {environment : Environment} {path : Bytes} {document : Value}
    (configured : environment.arcalConfig = some path) (named : path ≠ utf8 "NONE" ∧ path ≠ [])
    (parsed : readConfigFile path = .ok document) (serviceLabel : Bytes) (identity : CalIdentity) :
    resolveCalIdentity readConfigFile environment serviceLabel = .ok identity ↔
      ∃ system root subsystems, selectSystem document environment.arcalSystem = .ok system ∧
        DeclaresSystem system root subsystems ∧ Distinct root subsystems ∧
        DeclaredIdentity root subsystems serviceLabel identity := by
  simp only [resolveCalIdentity, configured, Option.getD_some, if_neg named.1, if_neg named.2,
    bind_eq_ok, parsed, Except.ok.injEq, exists_eq_left', requireString_ok, requireUUID_ok,
    requireArrayIfPresent_ok]
  constructor
  · intro given
    rcases given with ⟨system, selected, name, hasName, uuid, hasUuid, mid, parsedRoot, items,
      isArray, tables, parsedParts, run⟩
    rcases (parsePart_ok hasName hasUuid tablesHold_empty).mp parsedRoot with
      ⟨root, isName, isUuid, declared, mids⟩
    rcases (parseSubsystems_ok mids).mp parsedParts with ⟨parts, subsystems, distinct, _, all⟩
    cases found : tables.services.lookup serviceLabel with
    | none =>
        rw [found] at run
        cases run
    | some service =>
        rw [found] at run
        injection run with same
        refine ⟨system, root, parts, selected, ⟨declared, items, isArray, subsystems⟩,
          ⟨all.services.distinct, all.components.distinct, all.capabilities.distinct, distinct⟩, ?_⟩
        rw [← same]
        exact ⟨rfl, isName.symm, rfl, isUuid.symm, (all.services.lookup _ _).mp found,
          all.components.lookup, all.capabilities.lookup⟩
  · intro given
    rcases given with ⟨system, root, parts, selected, declares, distinct, isIdentity⟩
    rcases declares.subsystems with ⟨items, isArray, subsystems⟩
    rcases Holds.exists_of_nodup distinct.services with ⟨services, holdsServices⟩
    have holdsComponents : Holds identity.componentUUIDs (allComponents root parts) :=
      ⟨distinct.components, isIdentity.components⟩
    have holdsCapabilities : Holds identity.capabilityUUIDs (allCapabilities root parts) :=
      ⟨distinct.capabilities, isIdentity.capabilities⟩
    have all : TablesHold ⟨services, identity.componentUUIDs, identity.capabilityUUIDs⟩
        (allServices root parts) (allComponents root parts) (allCapabilities root parts) :=
      ⟨holdsServices, holdsComponents, holdsCapabilities⟩
    rcases TablesHold.front all with ⟨mid, mids⟩
    refine ⟨system, selected, root.name, declares.root.name, root.uuid, declares.root.uuid, mid,
      ?_, items, isArray, ⟨services, identity.componentUUIDs, identity.capabilityUUIDs⟩, ?_, ?_⟩
    · exact (parsePart_ok declares.root.name declares.root.uuid tablesHold_empty).mpr
        ⟨root, rfl, rfl, declares.root, mids⟩
    · exact (parseSubsystems_ok mids).mpr
        ⟨parts, subsystems, distinct.subsystems, fun _ _ => Finset.notMem_empty _, all⟩
    · rw [(holdsServices.lookup _ _).mpr isIdentity.service]
      rcases isIdentity with ⟨isConfigured, isSystem, isLabel, isUuid, _, _, _⟩
      cases identity
      simp only at isConfigured isSystem isLabel isUuid
      rw [isConfigured, isSystem, isLabel, isUuid]

end Arcal.Config
