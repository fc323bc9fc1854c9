import Arcal.Config.Order

/-! When the order in which a configuration lists its systems does not matter. -/

namespace Arcal.Config

open JsonText (Value)

def systemsOf (document : Value) : Option (List Value) :=
  match document with
  | .object members =>
      match Json.find members (utf8 "systems") with
      | some (.array systems) => some systems
      | _ => none
  | _ => none

def withSystems (document : Value) (systems : List Value) : Value :=
  match document with
  | .object members => .object (members.map fun member =>
      if member.1 = utf8 "systems" then (member.1, .array systems) else member)
  | other => other

def outcome (environment : Environment) (document : Value) (serviceLabel : Bytes) :
    Option CalIdentity :=
  (resolveCalIdentity (fun _ => .ok document) environment serviceLabel).toOption

/-- Whatever order the systems are listed in, all are refused or all give one identity. -/
def OrderFree (environment : Environment) (document : Value) (serviceLabel : Bytes) : Prop :=
  ∀ systems systems', systemsOf document = some systems → systems.Perm systems' →
    outcome environment (withSystems document systems') serviceLabel =
      outcome environment document serviceLabel

def Named (name : Bytes) (entry : Value) : Prop :=
  ∃ members, entry = .object members ∧ HasString members (utf8 "name") name

/-- A system that declares everything it has to and identifies the service. -/
def Declares (serviceLabel : Bytes) (system : Members) (identity : CalIdentity) : Prop :=
  ∃ root subsystems, DeclaresSystem system root subsystems ∧ Distinct root subsystems ∧
    DeclaredIdentity root subsystems serviceLabel identity

/-- An entry with the selected name that identifies the service. -/
def Identifies (name serviceLabel : Bytes) (entry : Value) (identity : CalIdentity) : Prop :=
  ∃ members, entry = .object members ∧ HasString members (utf8 "name") name ∧
    Declares serviceLabel members identity

/-- If an entry gives an identity, then all entries are objects with a name and those of the
selected name give the same identity. -/
def Uniform (name serviceLabel : Bytes) (systems : List Value) : Prop :=
  ∀ entry ∈ systems, ∀ identity, Identifies name serviceLabel entry identity →
    ∀ other ∈ systems, (∃ name', Named name' other) ∧
      (Named name other → Identifies name serviceLabel other identity)

theorem find_map_replace (members : Members) (name : Bytes) (value : Value) :
    Json.find (members.map fun member =>
      if member.1 = name then (member.1, value) else member) name =
        (Json.find members name).map fun _ => value := by
  unfold Json.find
  rw [← List.map_reverse]
  induction members.reverse with
  | nil => rfl
  | cons member rest ih =>
      by_cases here : member.1 = name
      · simp [here]
      · have other : (member.1 == name) = false := by simpa using here
        simp only [List.map_cons, if_neg here, List.find?_cons, other]
        exact ih

theorem systemsOf_eq_some {document : Value} {systems : List Value} :
    systemsOf document = some systems ↔ ∃ members, document = .object members ∧
      Json.find members (utf8 "systems") = some (.array systems) := by
  constructor
  · intro listed
    unfold systemsOf at listed
    split at listed
    · next members =>
      split at listed
      · next found =>
        injection listed with same
        exact ⟨members, rfl, by rw [found, same]⟩
      · cases listed
    · cases listed
  · intro given
    rcases given with ⟨members, rfl, found⟩
    simp only [systemsOf, found]

theorem systemsOf_withSystems {document : Value} {systems : List Value}
    (listed : systemsOf document = some systems) (systems' : List Value) :
    systemsOf (withSystems document systems') = some systems' := by
  rcases systemsOf_eq_some.mp listed with ⟨members, rfl, found⟩
  apply systemsOf_eq_some.mpr
  refine ⟨_, rfl, ?_⟩
  rw [find_map_replace, found]
  rfl

section Loop

variable {name : Bytes} {systems : List Value}

theorem findSystem_mem {system : Members} (found : findSystem name systems = .ok system) :
    .object system ∈ systems ∧ HasString system (utf8 "name") name := by
  induction systems with
  | nil => cases found
  | cons entry rest ih =>
      rcases findSystem_cons_ok.mp found with ⟨members, name', rfl, hasName, run⟩
      by_cases here : name' = name
      · rw [if_pos here] at run
        subst here run
        exact ⟨List.mem_cons_self, hasName⟩
      · rw [if_neg here] at run
        rcases ih run with ⟨member, named⟩
        exact ⟨List.mem_cons_of_mem _ member, named⟩

theorem exists_findSystem (usable : ∀ entry ∈ systems, ∃ name', Named name' entry)
    (present : ∃ entry ∈ systems, Named name entry) :
    ∃ system, findSystem name systems = .ok system := by
  induction systems with
  | nil =>
      rcases present with ⟨entry, member, _⟩
      cases member
  | cons entry rest ih =>
      rcases usable entry List.mem_cons_self with ⟨name', members, rfl, hasName⟩
      by_cases here : name' = name
      · refine ⟨members, findSystem_cons_ok.mpr ⟨members, name', rfl, hasName, ?_⟩⟩
        rw [if_pos here]
      · have later : ∃ entry ∈ rest, Named name entry := by
          rcases present with ⟨entry', member, isNamed⟩
          rcases List.mem_cons.mp member with rfl | later
          · rcases isNamed with ⟨members', isObject, hasName'⟩
            injection isObject with same
            subst same
            have both := hasName.symm.trans hasName'
            injection both with both
            injection both with both
            exact absurd both here
          · exact ⟨entry', later, isNamed⟩
        rcases ih (fun entry member => usable entry (List.mem_cons_of_mem _ member)) later with
          ⟨system, found⟩
        refine ⟨system, findSystem_cons_ok.mpr ⟨members, name', rfl, hasName, ?_⟩⟩
        rw [if_neg here]
        exact found

end Loop

section Outcome

variable {path name serviceLabel : Bytes} {document : Value} {systems : List Value}
  {identity : CalIdentity}

theorem selectSystem_ok (selects : name ≠ []) (listed : systemsOf document = some systems)
    {system : Members} : selectSystem document (some name) = .ok system ↔
      findSystem name systems = .ok system := by
  rcases systemsOf_eq_some.mp listed with ⟨members, rfl, found⟩
  cases systems with
  | nil => simp [selectSystem, found, findSystem, refuse]
  | cons first rest => simp only [selectSystem, found, Option.getD_some, if_neg selects]

theorem outcome_eq_some (named : path ≠ utf8 "NONE" ∧ path ≠ []) (selects : name ≠ [])
    (listed : systemsOf document = some systems) :
    outcome ⟨some path, some name⟩ document serviceLabel = some identity ↔
      ∃ system, findSystem name systems = .ok system ∧ Declares serviceLabel system identity := by
  have resolved := @resolveCalIdentity_ok (fun _ => .ok document) ⟨some path, some name⟩ path
    document rfl named rfl serviceLabel identity
  have asOption : ∀ run : Except Exc CalIdentity,
      run.toOption = some identity ↔ run = .ok identity := by
    intro run
    cases run with
    | error e => simp [Except.toOption]
    | ok value => simp [Except.toOption]
  rw [outcome, asOption, resolved]
  constructor
  · intro given
    rcases given with ⟨system, root, subsystems, selected, declares⟩
    exact ⟨system, (selectSystem_ok selects listed).mp selected, root, subsystems, declares⟩
  · intro given
    rcases given with ⟨system, found, root, subsystems, declares⟩
    exact ⟨system, root, subsystems, (selectSystem_ok selects listed).mpr found, declares⟩

/-- In a uniform list an identity that one order gives is given by every order. -/
theorem outcome_perm (named : path ≠ utf8 "NONE" ∧ path ≠ []) (selects : name ≠ [])
    (uniform : Uniform name serviceLabel systems) {document' : Value} {systems' : List Value}
    (listed : systemsOf document = some systems) (listed' : systemsOf document' = some systems')
    (order : systems.Perm systems')
    (resolved : outcome ⟨some path, some name⟩ document serviceLabel = some identity) :
    outcome ⟨some path, some name⟩ document' serviceLabel = some identity := by
  rcases (outcome_eq_some named selects listed).mp resolved with ⟨system, found, declares⟩
  rcases findSystem_mem found with ⟨member, hasName⟩
  have others := uniform _ member identity ⟨system, rfl, hasName, declares⟩
  have usable : ∀ entry ∈ systems', ∃ name', Named name' entry := fun entry inside =>
    (others entry (order.mem_iff.mpr inside)).1
  rcases exists_findSystem usable ⟨_, order.mem_iff.mp member, system, rfl, hasName⟩ with
    ⟨system', found'⟩
  rcases findSystem_mem found' with ⟨member', hasName'⟩
  rcases (others _ (order.mem_iff.mpr member')).2 ⟨system', rfl, hasName'⟩ with
    ⟨members, isObject, _, declares'⟩
  injection isObject with same
  subst same
  exact (outcome_eq_some named selects listed').mpr ⟨system', found', declares'⟩

theorem Uniform.perm {systems' : List Value} (order : systems.Perm systems')
    (uniform : Uniform name serviceLabel systems) : Uniform name serviceLabel systems' := by
  intro entry member identity identifies other member'
  exact uniform entry (order.mem_iff.mpr member) identity identifies other
    (order.mem_iff.mpr member')

theorem exists_perm_first {entry : Value} (member : entry ∈ systems) :
    ∃ rest, systems.Perm (entry :: rest) := by
  rcases List.append_of_mem member with ⟨front, back, rfl⟩
  exact ⟨front ++ back, List.perm_middle⟩

/-- The order of the systems does not matter exactly when either no entry of the selected name
identifies the service, or all entries are objects with a name and those of the selected name
identify it alike. -/
theorem selection_order_free_iff (named : path ≠ utf8 "NONE" ∧ path ≠ []) (selects : name ≠ [])
    (document : Value) (serviceLabel : Bytes) :
    OrderFree ⟨some path, some name⟩ document serviceLabel ↔
      ∀ systems, systemsOf document = some systems → Uniform name serviceLabel systems := by
  constructor
  · intro free systems listed entry member identity identifies other member'
    rcases identifies with ⟨members, rfl, hasName, declares⟩
    -- Listed first, the entry is selected, so its identity is what every order gives.
    rcases exists_perm_first member with ⟨rest, order⟩
    have front : findSystem name (.object members :: rest) = .ok members := by
      refine findSystem_cons_ok.mpr ⟨members, name, rfl, hasName, ?_⟩
      rw [if_pos rfl]
    have whole : outcome ⟨some path, some name⟩ document serviceLabel = some identity := by
      rw [← free systems _ listed order]
      exact (outcome_eq_some named selects (systemsOf_withSystems listed _)).mpr
        ⟨members, front, declares⟩
    rcases exists_perm_first member' with ⟨rest', order'⟩
    have again := free systems _ listed order'
    rw [whole] at again
    rcases (outcome_eq_some named selects (systemsOf_withSystems listed _)).mp again with
      ⟨system, found, declares'⟩
    rcases findSystem_cons_ok.mp found with ⟨members', name', isObject, hasName', run⟩
    refine ⟨⟨name', members', isObject, hasName'⟩, ?_⟩
    intro isNamed
    rcases isNamed with ⟨members'', isObject', hasName''⟩
    have sameMembers : members' = members'' := by
      rw [isObject] at isObject'
      exact Value.object.inj isObject'
    subst sameMembers
    have sameName : name' = name := by
      have both := hasName'.symm.trans hasName''
      injection both with both
      exact Value.string.inj both
    rw [if_pos sameName] at run
    subst run
    exact ⟨members', isObject, hasName'', declares'⟩
  · intro uniform systems systems' listed order
    have here := uniform systems listed
    have there := here.perm order
    have listed' := systemsOf_withSystems listed systems'
    apply Option.ext
    intro identity
    constructor
    · exact outcome_perm named selects there listed' listed order.symm
    · exact outcome_perm named selects here listed listed' order

end Outcome

section Samples

def planningRig : Value :=
  .object [(utf8 "name", .string (utf8 "rig")),
    (utf8 "uuid", .string (utf8 "00000000-0000-0000-0000-00000000000a")),
    (utf8 "services", .array [.object [
      (utf8 "name", .string (utf8 "nav")),
      (utf8 "uuid", .string (utf8 "00000000-0000-0000-0000-000000000001"))]])]

def otherRig : Value := .object [(utf8 "name", .string (utf8 "bench"))]

def listing (systems : List Value) : Value := .object [(utf8 "systems", .array systems)]

def rigEnvironment : Environment := ⟨some (utf8 "cal.json"), some (utf8 "rig")⟩

/-- An entry without a name is met only if it is listed in front of the selected system. -/
theorem selection_depends_on_order :
    ¬ OrderFree rigEnvironment (listing [planningRig, .object []]) (utf8 "nav") := by
  intro free
  have same := congrArg Option.isSome (free [planningRig, .object []] [.object [], planningRig]
    rfl (List.Perm.swap _ _ _))
  have accepted : (outcome rigEnvironment (listing [planningRig, .object []])
      (utf8 "nav")).isSome = true := by
    decide +kernel
  have refused : (outcome rigEnvironment (withSystems (listing [planningRig, .object []])
      [.object [], planningRig]) (utf8 "nav")).isSome = false := by
    decide +kernel
  rw [accepted, refused] at same
  cases same

theorem selection_order_free_rigs :
    OrderFree rigEnvironment (listing [planningRig, otherRig]) (utf8 "nav") := by
  apply (@selection_order_free_iff (utf8 "cal.json") (utf8 "rig") ⟨by decide, by decide⟩
    (by decide) (listing [planningRig, otherRig]) (utf8 "nav")).mpr
  intro systems isListed entry member identity identifies other member'
  have same : systems = [planningRig, otherRig] := Option.some.inj (isListed.symm.trans rfl)
  subst same
  have bench : ¬ Named (utf8 "rig") otherRig := by
    intro isNamed
    rcases isNamed with ⟨members, isObject, hasName⟩
    have sameMembers : _ = members := Value.object.inj isObject
    subst sameMembers
    have text : utf8 "bench" = utf8 "rig" := Value.string.inj (Option.some.inj hasName)
    exact absurd text (by decide)
  rcases List.mem_pair.mp member with rfl | rfl
  · rcases List.mem_pair.mp member' with rfl | rfl
    · exact ⟨⟨utf8 "rig", _, rfl, rfl⟩, fun _ => identifies⟩
    · exact ⟨⟨utf8 "bench", _, rfl, rfl⟩, fun isNamed => absurd isNamed bench⟩
  · rcases identifies with ⟨members, isObject, hasName, _⟩
    exact absurd ⟨members, isObject, hasName⟩ bench

end Samples

end Arcal.Config
