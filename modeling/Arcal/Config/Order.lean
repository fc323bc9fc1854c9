import Arcal.Config.Resolve
import Arcal.Lib.Reorder

/-! The order in which a configuration lists its entries does not matter. -/

namespace Arcal.Config

open JsonText (Value)

/-- Two values that are read alike: equal, or objects that agree in the way given. -/
def SameValue (agree : Members → Members → Prop) (left right : Value) : Prop :=
  left = right ∨ ∃ members members', left = .object members ∧ right = .object members' ∧
    agree members members'

/-- A member is the same, or an array of entries that are the same in some order. -/
def SameArray (same : Value → Value → Prop) (key : Bytes) (left right : Members) : Prop :=
  Json.find left key = Json.find right key ∨
    ∃ items items', Json.find left key = some (.array items) ∧
      Json.find right key = some (.array items') ∧ Reordered same items items'

structure SameNaming (left right : Members) : Prop where
  name : Json.find left (utf8 "name") = Json.find right (utf8 "name")
  uuid : Json.find left (utf8 "uuid") = Json.find right (utf8 "uuid")

structure SamePart (left right : Members) : Prop extends SameNaming left right where
  services : SameArray (SameValue SameNaming) (utf8 "services") left right
  components : SameArray (SameValue SameNaming) (utf8 "components") left right
  capabilities : SameArray (SameValue SameNaming) (utf8 "capabilities") left right

structure SameSystem (left right : Members) : Prop extends SamePart left right where
  subsystems : SameArray (SameValue SamePart) (utf8 "subsystems") left right

/-- The systems stay in their places, the entries inside them need not. -/
def SameDocument (left right : Value) : Prop :=
  left = right ∨ ∃ members members' systems systems', left = .object members ∧
    right = .object members' ∧ Json.find members (utf8 "systems") = some (.array systems) ∧
    Json.find members' (utf8 "systems") = some (.array systems') ∧
    List.Forall₂ (SameValue SameSystem) systems systems'

theorem SameValue.symm {agree : Members → Members → Prop}
    (back : ∀ left right, agree left right → agree right left) (left right : Value)
    (same : SameValue agree left right) : SameValue agree right left := by
  rcases same with rfl | ⟨members, members', isLeft, isRight, agrees⟩
  · exact .inl rfl
  · exact .inr ⟨members', members, isRight, isLeft, back _ _ agrees⟩

theorem SameArray.symm {same : Value → Value → Prop}
    (back : ∀ left right, same left right → same right left) {key : Bytes} {left right : Members}
    (given : SameArray same key left right) : SameArray same key right left := by
  rcases given with equal | ⟨items, items', isLeft, isRight, reordered⟩
  · exact .inl equal.symm
  · exact .inr ⟨items', items, isRight, isLeft, reordered.symm back⟩

theorem SameNaming.symm (left right : Members) (same : SameNaming left right) :
    SameNaming right left :=
  ⟨same.name.symm, same.uuid.symm⟩

theorem SamePart.symm (left right : Members) (same : SamePart left right) :
    SamePart right left where
  toSameNaming := same.toSameNaming.symm
  services := same.services.symm (SameValue.symm SameNaming.symm)
  components := same.components.symm (SameValue.symm SameNaming.symm)
  capabilities := same.capabilities.symm (SameValue.symm SameNaming.symm)

theorem SameSystem.symm (left right : Members) (same : SameSystem left right) :
    SameSystem right left where
  toSamePart := same.toSamePart.symm
  subsystems := same.subsystems.symm (SameValue.symm SamePart.symm)

theorem SameDocument.symm {left right : Value} (same : SameDocument left right) :
    SameDocument right left := by
  rcases same with rfl | ⟨members, members', systems, systems', isLeft, isRight, has, has', pairs⟩
  · exact .inl rfl
  · exact .inr ⟨members', members, systems', systems, isRight, isLeft, has', has,
      pairs.flip.imp fun entry entry' => SameValue.symm SameSystem.symm entry' entry⟩

structure Part.Same (left right : Part) : Prop where
  name : left.name = right.name
  uuid : left.uuid = right.uuid
  services : left.services.Perm right.services
  components : left.components.Perm right.components
  capabilities : left.capabilities.Perm right.capabilities

theorem declaresEntry_same {item item' : Value} {entry : Bytes × UUID}
    (same : SameValue SameNaming item item') (declares : DeclaresEntry item entry) :
    DeclaresEntry item' entry := by
  rcases same with rfl | ⟨members, members', isLeft, isRight, agrees⟩
  · exact declares
  · rcases declares with ⟨other, isObject, name, text, uuid, accepted⟩
    rw [isLeft] at isObject
    injection isObject with isMembers
    rw [← isMembers] at name uuid
    exact ⟨members', isRight, agrees.name.symm.trans name, text, agrees.uuid.symm.trans uuid,
      accepted⟩

theorem arrayIfPresent_same {same : Value → Value → Prop} (self : ∀ value, same value value)
    {key : Bytes} {left right : Members} (given : SameArray same key left right)
    {items : List Value} (isArray : ArrayIfPresent left key items) :
    ∃ items', ArrayIfPresent right key items' ∧ Reordered same items items' := by
  rcases given with equal | ⟨listed, items', isLeft, isRight, reordered⟩
  · refine ⟨items, ?_, .refl self items⟩
    unfold ArrayIfPresent
    rw [← equal]
    exact isArray
  · rcases isArray with ⟨absent, _⟩ | found
    · rw [isLeft] at absent
      cases absent
    · rw [isLeft] at found
      injection found with found
      injection found with same
      rw [← same]
      exact ⟨items', .inr isRight, reordered⟩

theorem declaresEntries_same {key : Bytes} {left right : Members}
    (given : SameArray (SameValue SameNaming) key left right) {entries : List (Bytes × UUID)}
    (declares : DeclaresEntries left key entries) :
    ∃ entries', DeclaresEntries right key entries' ∧ entries.Perm entries' := by
  rcases declares with ⟨items, isArray, all⟩
  rcases arrayIfPresent_same (fun _ => .inl rfl) given isArray with ⟨items', isArray', reordered⟩
  have each : ∀ item item' entry, SameValue SameNaming item item' → DeclaresEntry item entry →
      ∃ entry', DeclaresEntry item' entry' ∧ entry = entry' := by
    intro item item' entry same declared
    exact ⟨entry, declaresEntry_same same declared, rfl⟩
  rcases reordered.transfer each all with ⟨entries', all', same⟩
  exact ⟨entries', ⟨items', isArray', all'⟩, same.perm⟩

theorem declaresPart_same {left right : Members} (given : SamePart left right) {part : Part}
    (declares : DeclaresPart left part) :
    ∃ part', DeclaresPart right part' ∧ part.Same part' := by
  rcases declaresEntries_same given.services declares.services with
    ⟨services, declaredServices, sameServices⟩
  rcases declaresEntries_same given.components declares.components with
    ⟨components, declaredComponents, sameComponents⟩
  rcases declaresEntries_same given.capabilities declares.capabilities with
    ⟨capabilities, declaredCapabilities, sameCapabilities⟩
  rcases declares.uuid with ⟨text, hasText, accepted⟩
  exact ⟨⟨part.name, part.uuid, services, components, capabilities⟩,
    ⟨given.name.symm.trans declares.name, ⟨text, given.uuid.symm.trans hasText, accepted⟩,
      declaredServices, declaredComponents, declaredCapabilities⟩,
    ⟨rfl, rfl, sameServices, sameComponents, sameCapabilities⟩⟩

theorem declaresSubsystem_same (item item' : Value) (part : Part)
    (same : SameValue SamePart item item') (declares : DeclaresSubsystem item part) :
    ∃ part', DeclaresSubsystem item' part' ∧ part.Same part' := by
  rcases same with rfl | ⟨members, members', isLeft, isRight, agrees⟩
  · exact ⟨part, declares, rfl, rfl, .refl _, .refl _, .refl _⟩
  · rcases declares with ⟨other, isObject, declares⟩
    rw [isLeft] at isObject
    injection isObject with isMembers
    rw [← isMembers] at declares
    rcases declaresPart_same agrees declares with ⟨part', declares', isSame⟩
    exact ⟨part', ⟨members', isRight, declares'⟩, isSame⟩

theorem declaresSystem_same {left right : Members} (given : SameSystem left right) {root : Part}
    {subsystems : List Part} (declares : DeclaresSystem left root subsystems) :
    ∃ root' subsystems', DeclaresSystem right root' subsystems' ∧ root.Same root' ∧
      Reordered Part.Same subsystems subsystems' := by
  rcases declaresPart_same given.toSamePart declares.root with ⟨root', declaresRoot, sameRoot⟩
  rcases declares.subsystems with ⟨items, isArray, all⟩
  rcases arrayIfPresent_same (fun _ => .inl rfl) given.subsystems isArray with
    ⟨items', isArray', reordered⟩
  rcases reordered.transfer declaresSubsystem_same all with ⟨subsystems', all', same⟩
  exact ⟨root', subsystems', ⟨declaresRoot, items', isArray', all'⟩, sameRoot, same⟩

section Unions

variable {root root' : Part} {subsystems subsystems' : List Part}

theorem Part.Same.servicesOf {left right : Part} (same : left.Same right) (subsystemUUID : UUID) :
    (left.servicesOf subsystemUUID).Perm (right.servicesOf subsystemUUID) :=
  same.services.map _

theorem allServices_same (sameRoot : root.Same root')
    (same : Reordered Part.Same subsystems subsystems') :
    (allServices root subsystems).Perm (allServices root' subsystems') := by
  apply (sameRoot.servicesOf UUID.nil).append
  apply same.flatMap
  intro part part' isSame
  rw [isSame.uuid]
  exact isSame.servicesOf part'.uuid

theorem allComponents_same (sameRoot : root.Same root')
    (same : Reordered Part.Same subsystems subsystems') :
    (allComponents root subsystems).Perm (allComponents root' subsystems') :=
  sameRoot.components.append (same.flatMap fun _ _ isSame => isSame.components)

theorem allCapabilities_same (sameRoot : root.Same root')
    (same : Reordered Part.Same subsystems subsystems') :
    (allCapabilities root subsystems).Perm (allCapabilities root' subsystems') :=
  sameRoot.capabilities.append (same.flatMap fun _ _ isSame => isSame.capabilities)

theorem distinct_same (sameRoot : root.Same root')
    (same : Reordered Part.Same subsystems subsystems') (distinct : Distinct root subsystems) :
    Distinct root' subsystems' where
  services := ((allServices_same sameRoot same).map _).nodup_iff.mp distinct.services
  components := ((allComponents_same sameRoot same).map _).nodup_iff.mp distinct.components
  capabilities := ((allCapabilities_same sameRoot same).map _).nodup_iff.mp distinct.capabilities
  subsystems := (same.map fun _ _ isSame => isSame.name).nodup_iff.mp distinct.subsystems

theorem declaredIdentity_same (sameRoot : root.Same root')
    (same : Reordered Part.Same subsystems subsystems') {serviceLabel : Bytes}
    {identity : CalIdentity} (declared : DeclaredIdentity root subsystems serviceLabel identity) :
    DeclaredIdentity root' subsystems' serviceLabel identity where
  configured := declared.configured
  systemLabel := declared.systemLabel.trans sameRoot.name
  label := declared.label
  systemUUID := declared.systemUUID.trans sameRoot.uuid
  service := (allServices_same sameRoot same).mem_iff.mp declared.service
  components := by
    intro name uuid
    rw [declared.components, (allComponents_same sameRoot same).mem_iff]
  capabilities := by
    intro name uuid
    rw [declared.capabilities, (allCapabilities_same sameRoot same).mem_iff]

end Unions

theorem sameSystem_refl (members : Members) : SameSystem members members :=
  ⟨⟨⟨rfl, rfl⟩, .inl rfl, .inl rfl, .inl rfl⟩, .inl rfl⟩

theorem sameValue_object {system : Members} {item : Value}
    (same : SameValue SameSystem (.object system) item) :
    ∃ system', item = .object system' ∧ SameSystem system system' := by
  rcases same with equal | ⟨members, members', isLeft, isRight, agrees⟩
  · exact ⟨system, equal.symm, sameSystem_refl system⟩
  · injection isLeft with isMembers
    rw [isMembers]
    exact ⟨members', isRight, agrees⟩

theorem findSystem_cons_ok {selectedSystem : Bytes} {item : Value} {rest : List Value}
    {system : Members} :
    findSystem selectedSystem (item :: rest) = .ok system ↔
      ∃ members name, item = .object members ∧ HasString members (utf8 "name") name ∧
        if name = selectedSystem then members = system
        else findSystem selectedSystem rest = .ok system := by
  cases item with
  | object members =>
      simp only [findSystem, bind_eq_ok, requireString_ok]
      constructor
      · intro given
        rcases given with ⟨name, hasName, run⟩
        refine ⟨members, name, rfl, hasName, ?_⟩
        split
        · next here =>
          rw [if_pos here] at run
          exact Except.ok.inj run
        · next other =>
          rw [if_neg other] at run
          exact run
      · intro given
        rcases given with ⟨members', name, isObject, hasName, run⟩
        injection isObject with same
        rw [← same] at hasName run
        refine ⟨name, hasName, ?_⟩
        split
        · next here =>
          rw [if_pos here] at run
          rw [run]
        · next other =>
          rw [if_neg other] at run
          exact run
  | null => simp [findSystem, refuse]
  | bool b => simp [findSystem, refuse]
  | number literal => simp [findSystem, refuse]
  | string text => simp [findSystem, refuse]
  | array items => simp [findSystem, refuse]

theorem findSystem_same {selectedSystem : Bytes} {systems systems' : List Value}
    (pairs : List.Forall₂ (SameValue SameSystem) systems systems') {system : Members}
    (found : findSystem selectedSystem systems = .ok system) :
    ∃ system', findSystem selectedSystem systems' = .ok system' ∧ SameSystem system system' := by
  induction pairs with
  | nil => cases found
  | cons first _ ih =>
      rcases findSystem_cons_ok.mp found with ⟨members, name, isObject, hasName, run⟩
      rw [isObject] at first
      rcases sameValue_object first with ⟨members', isObject', agrees⟩
      have hasName' : HasString members' (utf8 "name") name := agrees.name.symm.trans hasName
      by_cases here : name = selectedSystem
      · rw [if_pos here] at run
        rw [← run]
        refine ⟨members', findSystem_cons_ok.mpr ⟨members', name, isObject', hasName', ?_⟩, agrees⟩
        rw [if_pos here]
      · rw [if_neg here] at run
        rcases ih run with ⟨system', found', isSame⟩
        refine ⟨system', findSystem_cons_ok.mpr ⟨members', name, isObject', hasName', ?_⟩, isSame⟩
        rw [if_neg here]
        exact found'

theorem selectSystem_same {document document' : Value} (same : SameDocument document document')
    {selected : Option Bytes} {system : Members}
    (found : selectSystem document selected = .ok system) :
    ∃ system', selectSystem document' selected = .ok system' ∧ SameSystem system system' := by
  rcases same with rfl | ⟨members, members', systems, systems', rfl, rfl, has, has', pairs⟩
  · exact ⟨system, found, sameSystem_refl system⟩
  · cases pairs with
    | nil =>
        simp only [selectSystem, has] at found
        cases found
    | cons first later =>
        simp only [selectSystem, has] at found
        simp only [selectSystem, has']
        by_cases unset : selected.getD [] = []
        · rw [if_pos unset] at found ⊢
          cases later with
          | cons second rest =>
              split at found
              · next empty => cases empty
              · next empty => cases empty
              · cases found
          | nil =>
              split at found
              · next members =>
                rcases sameValue_object first with ⟨members', isObject, agrees⟩
                injection found with isSystem
                rw [isObject, ← isSystem]
                exact ⟨members', rfl, agrees⟩
              · cases found
              · cases found
        · rw [if_neg unset] at found ⊢
          exact findSystem_same (.cons first later) found

section Resolution

variable {readConfigFile readConfigFile' : Bytes → Except Exc Value} {environment : Environment}
  {path : Bytes} {document document' : Value}

theorem resolveCalIdentity_same (configured : environment.arcalConfig = some path)
    (named : path ≠ utf8 "NONE" ∧ path ≠ []) (parsed : readConfigFile path = .ok document)
    (parsed' : readConfigFile' path = .ok document') (same : SameDocument document document')
    {serviceLabel : Bytes} {identity : CalIdentity}
    (resolved : resolveCalIdentity readConfigFile environment serviceLabel = .ok identity) :
    resolveCalIdentity readConfigFile' environment serviceLabel = .ok identity := by
  rcases (resolveCalIdentity_ok configured named parsed serviceLabel identity).mp resolved with
    ⟨system, root, subsystems, selected, declares, distinct, declared⟩
  rcases selectSystem_same same selected with ⟨system', selected', sameSystem⟩
  rcases declaresSystem_same sameSystem declares with
    ⟨root', subsystems', declares', sameRoot, sameSubsystems⟩
  exact (resolveCalIdentity_ok configured named parsed' serviceLabel identity).mpr
    ⟨system', root', subsystems', selected', declares', distinct_same sameRoot sameSubsystems distinct,
      declaredIdentity_same sameRoot sameSubsystems declared⟩

/-- Resolution accepts exactly the valid configurations and gives the declared identity; the
order of the entries changes neither. -/
theorem calIdentity_declared (configured : environment.arcalConfig = some path)
    (named : path ≠ utf8 "NONE" ∧ path ≠ []) (parsed : readConfigFile path = .ok document)
    (serviceLabel : Bytes) (identity : CalIdentity) :
    (resolveCalIdentity readConfigFile environment serviceLabel = .ok identity ↔
      ∃ system root subsystems, selectSystem document environment.arcalSystem = .ok system ∧
        DeclaresSystem system root subsystems ∧ Distinct root subsystems ∧
        DeclaredIdentity root subsystems serviceLabel identity) ∧
    ∀ (readConfigFile' : Bytes → Except Exc Value) (document' : Value),
      readConfigFile' path = .ok document' → SameDocument document document' →
        (resolveCalIdentity readConfigFile environment serviceLabel = .ok identity ↔
          resolveCalIdentity readConfigFile' environment serviceLabel = .ok identity) := by
  refine ⟨resolveCalIdentity_ok configured named parsed serviceLabel identity, ?_⟩
  intro readConfigFile' document' parsed' same
  constructor
  · exact resolveCalIdentity_same configured named parsed parsed' same
  · exact resolveCalIdentity_same configured named parsed' parsed same.symm

end Resolution

section Sample

def navService : Value :=
  .object [(utf8 "name", .string (utf8 "nav")),
    (utf8 "uuid", .string (utf8 "00000000-0000-0000-0000-000000000001"))]

def trackService : Value :=
  .object [(utf8 "name", .string (utf8 "track")),
    (utf8 "uuid", .string (utf8 "00000000-0000-0000-0000-000000000002"))]

def radarWith (services : List Value) : Value :=
  .object [(utf8 "name", .string (utf8 "radar")),
    (utf8 "uuid", .string (utf8 "00000000-0000-0000-0000-00000000000b")),
    (utf8 "services", .array services)]

def rigWith (services : List Value) : Value :=
  .object [(utf8 "name", .string (utf8 "rig")),
    (utf8 "uuid", .string (utf8 "00000000-0000-0000-0000-00000000000a")),
    (utf8 "subsystems", .array [radarWith services])]

/-- The first system is not selected, so nothing but its name is looked at. -/
def fleetWith (services : List Value) : Value :=
  .object [(utf8 "systems", .array [.object [(utf8 "name", .string (utf8 "alpha"))],
    rigWith services])]

def sampleEnvironment : Environment := ⟨some (utf8 "cal.json"), some (utf8 "rig")⟩

theorem fleetWith_same {services services' : List Value} (order : services.Perm services') :
    SameDocument (fleetWith services) (fleetWith services') := by
  have reordered : Reordered (SameValue SameNaming) services services' :=
    ⟨services, List.forall₂_same.mpr fun _ _ => .inl rfl, order⟩
  have radar : SameValue SamePart (radarWith services) (radarWith services') :=
    .inr ⟨_, _, rfl, rfl, ⟨rfl, rfl⟩, .inr ⟨_, _, rfl, rfl, reordered⟩, .inl rfl, .inl rfl⟩
  have rig : SameValue SameSystem (rigWith services) (rigWith services') :=
    .inr ⟨_, _, rfl, rfl, ⟨⟨rfl, rfl⟩, .inl rfl, .inl rfl, .inl rfl⟩,
      .inr ⟨_, _, rfl, rfl, [radarWith services'], .cons radar .nil, .refl _⟩⟩
  exact .inr ⟨_, _, _, _, rfl, rfl, rfl, rfl, .cons (.inl rfl) (.cons rig .nil)⟩

theorem calIdentity_declared_track : ∃ identity,
    resolveCalIdentity (fun _ => .ok (fleetWith [navService, trackService])) sampleEnvironment
        (utf8 "track") = .ok identity ∧
      (∃ system root subsystems,
        selectSystem (fleetWith [navService, trackService]) (some (utf8 "rig")) = .ok system ∧
        DeclaresSystem system root subsystems ∧ Distinct root subsystems ∧
        DeclaredIdentity root subsystems (utf8 "track") identity) ∧
      resolveCalIdentity (fun _ => .ok (fleetWith [trackService, navService])) sampleEnvironment
        (utf8 "track") = .ok identity := by
  have accepted : (resolveCalIdentity (fun _ => .ok (fleetWith [navService, trackService]))
      sampleEnvironment (utf8 "track")).isOk = true := by
    decide +kernel
  cases run : resolveCalIdentity (fun _ => .ok (fleetWith [navService, trackService]))
      sampleEnvironment (utf8 "track") with
  | error e =>
      rw [run] at accepted
      cases accepted
  | ok identity =>
      have declared := @calIdentity_declared
        (fun _ => .ok (fleetWith [navService, trackService])) sampleEnvironment
        (utf8 "cal.json") (fleetWith [navService, trackService]) rfl ⟨by decide, by decide⟩ rfl
        (utf8 "track") identity
      have other := declared.2 (fun _ => .ok (fleetWith [trackService, navService])) _ rfl
        (fleetWith_same (.swap _ _ _))
      exact ⟨identity, rfl, declared.1.mp run, other.mp run⟩

end Sample

end Arcal.Config
