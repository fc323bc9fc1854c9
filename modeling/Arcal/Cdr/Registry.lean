import Arcal.Cdr.RoundTrip

/-! The tag registry that all CDR dispatch goes through: what the schema compiler puts
into it, what a lookup finds, and what `dynamic_cast` does to the accessor it is given. -/

namespace Arcal.Cdr

open Schema InPlace

/-- An accessor object: its dynamic class and its storage. -/
structure Accessor (schema : SchemaModel) where
  typeName : String
  elem : Elem
  laidOut : layout schema typeName = some elem
  obj : elem.Impl

/-- The constant generated for a class, which is also its wire tag. -/
def Accessor.getAccessorType {schema : SchemaModel} (a : Accessor schema) : UInt32 :=
  fnv1a32 a.typeName

/-- A class seen inside an object: the object itself or one of its base parts. -/
structure Part (σ : Type) where
  elem : Elem
  get : σ → elem.Impl
  put : σ → elem.Impl → σ

def Part.whole (e : Elem) : Part e.Impl := ⟨e, id, fun _ v => v⟩

def Part.ofFst {σ τ : Type} (part : Part σ) : Part (σ × τ) :=
  ⟨part.elem, fun pair => part.get pair.1, fun pair v => (part.put pair.1 v, pair.2)⟩

/-- The base classes of a class, nearest first. -/
def Members.castTo (typeName : String) : (ms : Members) → Option (Part ms.Impl)
  | .base name body _ =>
      if name = typeName then some (Part.whole (.cls name body)).ofFst
      else (Members.castTo typeName body).map Part.ofFst
  | _ => none

/-- `dynamic_cast<T&>`: the object as a `T`, if its class is `T` or derived from it. -/
def Elem.castTo (typeName : String) : (e : Elem) → Option (Part e.Impl)
  | .prim _ => none
  | .enum name enumValues =>
      if name = typeName then some (Part.whole (.enum name enumValues)) else none
  | .cls name body =>
      if name = typeName then some (Part.whole (.cls name body)) else Members.castTo typeName body

def typeEntries (schema : SchemaModel) : List (String × UInt32) :=
  (schema.types.filter fun m => !m.isSimpleRestriction).map fun m => (m.name, fnv1a32 m.name)

def checkTags (seen : List (UInt32 × String)) : List (String × UInt32) → Except Bytes Unit
  | [] => .ok ()
  | (xsdName, tag) :: rest =>
      match seen.lookup tag with
      | none => checkTags ((tag, xsdName) :: seen) rest
      | some previous =>
          if previous ≠ xsdName then
            .error (utf8 "FNV-1a type tag collision: " ++ utf8 previous ++ utf8 " and " ++
              utf8 xsdName ++ utf8 " both map to " ++ decimal tag.toNat)
          else checkTags seen rest

/-- The compiler refuses a schema in which two types share a tag. -/
def renderCdrRegisterAll (schema : SchemaModel) : Except Bytes (List (String × UInt32)) :=
  match checkTags [] (typeEntries schema) with
  | .ok _ => .ok (typeEntries schema)
  | .error message => .error message

/-- `tagTable_`; a handler is known by the XSD name of the type it was generated for. -/
structure CdrRegistry where
  tagTable : List (UInt32 × String)

def CdrRegistry.registerByTag (reg : CdrRegistry) (tag : UInt32) (typeName : String) :
    Except Exc CdrRegistry :=
  match reg.tagTable.lookup tag with
  | none => .ok ⟨(tag, typeName) :: reg.tagTable⟩
  | some _ => .error (.runtimeError
      (utf8 "CdrRegistry: duplicate handler for type tag " ++ decimal tag.toNat))

def CdrRegistry.lookupByTag (reg : CdrRegistry) (tag : UInt32) : Except Exc String :=
  match reg.tagTable.lookup tag with
  | some typeName => .ok typeName
  | none => .error (.runtimeError
      (utf8 "CdrRegistry: no handler for type tag " ++ decimal tag.toNat))

def registerAllCdrHandlers (reg : CdrRegistry) : List (String × UInt32) → Except Exc CdrRegistry
  | [] => .ok reg
  | (xsdName, tag) :: rest =>
      match reg.registerByTag tag xsdName with
      | .ok more => registerAllCdrHandlers more rest
      | .error e => .error e

/-- A program built from the schema: the compiler accepted it and the handlers are registered. -/
structure Built (schema : SchemaModel) (reg : CdrRegistry) : Prop where
  rendered : renderCdrRegisterAll schema = .ok (typeEntries schema)
  registered : registerAllCdrHandlers ⟨[]⟩ (typeEntries schema) = .ok reg

section Lookup

theorem registerAll_keeps {reg more : CdrRegistry} {entries : List (String × UInt32)}
    (run : registerAllCdrHandlers reg entries = .ok more) {tag : UInt32} {typeName : String}
    (known : reg.tagTable.lookup tag = some typeName) :
    more.tagTable.lookup tag = some typeName := by
  induction entries generalizing reg with
  | nil =>
      injection run with same
      rw [← same]
      exact known
  | cons entry rest ih =>
      rcases entry with ⟨xsdName, other⟩
      simp only [registerAllCdrHandlers, CdrRegistry.registerByTag] at run
      split at run
      · next next' registered =>
        split at registered
        · next free =>
          injection registered with same
          rw [← same] at run
          refine ih run ?_
          have differs : (tag == other) = false := by
            cases clash : tag == other with
            | false => rfl
            | true =>
                rw [← eq_of_beq clash, known] at free
                cases free
          rw [List.lookup_cons, differs]
          exact known
        · cases registered
      · cases run

theorem registerAll_lookup {reg more : CdrRegistry} {entries : List (String × UInt32)}
    (run : registerAllCdrHandlers reg entries = .ok more) {tag : UInt32} {typeName : String}
    (entry : (typeName, tag) ∈ entries) : more.tagTable.lookup tag = some typeName := by
  induction entries generalizing reg with
  | nil => cases entry
  | cons first rest ih =>
      rcases first with ⟨xsdName, other⟩
      simp only [registerAllCdrHandlers] at run
      split at run
      · next next' registered =>
        rcases List.mem_cons.mp entry with here | later
        · injection here with sameName sameTag
          subst sameName sameTag
          refine registerAll_keeps run ?_
          simp only [CdrRegistry.registerByTag] at registered
          split at registered
          · injection registered with same
            rw [← same]
            simp
          · cases registered
        · exact ih run later
      · cases run

/-- The handler found under a class's constant is the one generated for that class. -/
theorem Built.lookupByTag {schema : SchemaModel} {reg : CdrRegistry} (built : Built schema reg)
    {typeName : String} {m : TypeModel} (found : schema.find typeName = some m)
    (classy : m.isSimpleRestriction = false) :
    reg.lookupByTag (fnv1a32 typeName) = .ok typeName := by
  have entry : (typeName, fnv1a32 typeName) ∈ typeEntries schema := by
    rw [← SchemaModel.find_name found]
    refine List.mem_map_of_mem (List.mem_filter.mpr ⟨SchemaModel.find_mem found, ?_⟩)
    rw [classy]
    rfl
  simp only [CdrRegistry.lookupByTag, registerAll_lookup built.registered entry]

theorem Built.tag_injective {schema : SchemaModel} {reg : CdrRegistry}
    (built : Built schema reg) {left right : String} {l r : TypeModel}
    (foundLeft : schema.find left = some l) (foundRight : schema.find right = some r)
    (classyLeft : l.isSimpleRestriction = false) (classyRight : r.isSimpleRestriction = false)
    (same : fnv1a32 left = fnv1a32 right) : left = right := by
  have leftRun := built.lookupByTag foundLeft classyLeft
  have rightRun := built.lookupByTag foundRight classyRight
  rw [same, rightRun] at leftRun
  injection leftRun with eq
  exact eq.symm

theorem registerAll_ok (reg : CdrRegistry) {entries : List (String × UInt32)}
    (names : (entries.map Prod.fst).Nodup)
    (fresh : ∀ entry ∈ entries, ∀ tag, reg.tagTable.lookup tag ≠ some entry.1)
    (checked : checkTags reg.tagTable entries = .ok ()) :
    ∃ more, registerAllCdrHandlers reg entries = .ok more := by
  induction entries generalizing reg with
  | nil => exact ⟨reg, rfl⟩
  | cons entry rest ih =>
      rcases entry with ⟨xsdName, tag⟩
      rw [List.map_cons, List.nodup_cons] at names
      simp only [checkTags] at checked
      split at checked
      · next free =>
        have registered : reg.registerByTag tag xsdName = .ok ⟨(tag, xsdName) :: reg.tagTable⟩ := by
          simp only [CdrRegistry.registerByTag, free]
        obtain ⟨more, run⟩ := ih ⟨(tag, xsdName) :: reg.tagTable⟩ names.2
          (by
            intro other member key known
            by_cases here : key = tag
            · subst here
              rw [List.lookup_cons_self] at known
              have clash : xsdName = other.1 := Option.some.inj known
              exact names.1 (List.mem_map.mpr ⟨other, member, clash.symm⟩)
            · rw [List.lookup_cons, show (key == tag) = false by simpa using here] at known
              exact fresh other (List.mem_cons_of_mem _ member) key known)
          checked
        exact ⟨more, by simp only [registerAllCdrHandlers, registered, run]⟩
      · next previous seen =>
        split at checked
        · cases checked
        · next same =>
          rw [not_not.mp same] at seen
          exact absurd seen (fresh (xsdName, tag) (by simp) tag)

theorem checkTags_eq_ok_iff {seen : List (UInt32 × String)} {entries : List (String × UInt32)} :
    checkTags seen entries = .ok () ↔
      (∀ entry ∈ entries, ∀ previous, seen.lookup entry.2 = some previous → previous = entry.1) ∧
        entries.Pairwise fun first later => first.2 = later.2 → first.1 = later.1 := by
  induction entries generalizing seen with
  | nil => simp [checkTags]
  | cons entry rest ih =>
      rcases entry with ⟨xsdName, tag⟩
      rw [List.forall_mem_cons, List.pairwise_cons]
      cases known : seen.lookup tag with
      | none =>
          have step : ∀ entry : String × UInt32, ((tag, xsdName) :: seen).lookup entry.2 =
              if entry.2 = tag then some xsdName else seen.lookup entry.2 := by
            intro entry
            by_cases same : entry.2 = tag
            · rw [if_pos same, same, List.lookup_cons_self]
            · rw [if_neg same, List.lookup_cons, beq_false_of_ne same]
          simp only [checkTags, known, ih, step]
          constructor
          · rintro ⟨agree, apart⟩
            refine ⟨⟨nofun, ?_⟩, ?_, apart⟩
            · intro entry member previous found
              refine agree entry member previous ?_
              rw [if_neg ?_, found]
              intro same
              rw [same, known] at found
              cases found
            · intro entry member same
              exact agree entry member xsdName (if_pos same.symm)
          · rintro ⟨⟨_, agree⟩, head, apart⟩
            refine ⟨?_, apart⟩
            intro entry member previous found
            split at found
            · next same =>
              rw [← Option.some.inj found]
              exact head entry member same.symm
            · exact agree entry member previous found
      | some previous =>
          by_cases same : previous = xsdName
          · subst same
            simp only [checkTags, known, ne_eq, not_true_eq_false, if_false, ih]
            constructor
            · rintro ⟨agree, apart⟩
              refine ⟨⟨fun other found => (Option.some.inj found).symm, agree⟩, ?_, apart⟩
              intro entry member same
              exact agree entry member previous (same ▸ known)
            · rintro ⟨⟨_, agree⟩, _, apart⟩
              exact ⟨agree, apart⟩
          · simp only [checkTags, known, ne_eq, same, not_false_eq_true, if_true]
            constructor
            · intro refused
              cases refused
            · rintro ⟨⟨here, _⟩, _⟩
              exact absurd (here previous rfl) same

theorem registerAll_of_nodup {reg : CdrRegistry} {entries : List (String × UInt32)}
    (tags : (entries.map Prod.snd).Nodup)
    (free : ∀ entry ∈ entries, reg.tagTable.lookup entry.2 = none) :
    ∃ more, registerAllCdrHandlers reg entries = .ok more := by
  induction entries generalizing reg with
  | nil => exact ⟨reg, rfl⟩
  | cons entry rest ih =>
      rcases entry with ⟨handler, tag⟩
      rw [List.map_cons, List.nodup_cons] at tags
      have registered : reg.registerByTag tag handler = .ok ⟨(tag, handler) :: reg.tagTable⟩ := by
        simp only [CdrRegistry.registerByTag, free (handler, tag) List.mem_cons_self]
      simp only [registerAllCdrHandlers, registered]
      apply ih tags.2
      intro other member
      have apart : other.2 ≠ tag := by
        intro clash
        have among : other.2 ∈ rest.map Prod.snd := List.mem_map_of_mem member
        exact tags.1 (clash ▸ among)
      rw [List.lookup_cons, beq_false_of_ne apart]
      exact free other (List.mem_cons_of_mem _ member)

theorem exists_built {schema : SchemaModel}
    (rendered : renderCdrRegisterAll schema = .ok (typeEntries schema)) :
    ∃ reg, Built schema reg := by
  have checked : checkTags [] (typeEntries schema) = .ok () := by
    unfold renderCdrRegisterAll at rendered
    split at rendered
    · next passed => exact passed
    · cases rendered
  have names : ((typeEntries schema).map Prod.fst).Nodup := by
    have sub : ((typeEntries schema).map Prod.fst).Sublist (schema.types.map TypeModel.name) := by
      rw [typeEntries, List.map_map]
      exact (List.filter_sublist (l := schema.types)).map TypeModel.name
    exact sub.nodup schema.nodupNames
  rcases registerAll_ok ⟨[]⟩ names (by simp) checked with ⟨reg, run⟩
  exact ⟨reg, rendered, run⟩

/-- The tags of the sample schema are distinct, so it has a registry. -/
def sampleRegistry : CdrRegistry :=
  ⟨(typeEntries sampleSchema).reverse.map fun entry => (entry.2, entry.1)⟩

theorem sampleSchema_built : Built sampleSchema sampleRegistry := ⟨by rfl, by rfl⟩

end Lookup

variable {schema : SchemaModel}

def serialize (typeName : String) (a : Accessor schema) (buf : Bytes) : Except Exc Bytes :=
  match Elem.castTo typeName a.elem with
  | some part => .ok (Elem.serialize part.elem (part.get a.obj) buf)
  | none => .error .badCast

def deserializeAt (typeName : String) (buf : Bytes) (off : Nat) (a : Accessor schema) :
    Except Exc Unit × Accessor schema :=
  match Elem.castTo typeName a.elem with
  | some part =>
      match onPart part.get part.put (Elem.deserializeAt buf part.elem) ⟨off, a.obj⟩ with
      | .ok _ stop => (.ok (), { a with obj := stop.obj })
      | .error e stop => (.error e, { a with obj := stop.obj })
  | none => (.error .badCast, a)

theorem castTo_self {typeName : String} {e : Elem} (laidOut : layout schema typeName = some e) :
    Elem.castTo typeName e = some (Part.whole e) := by
  unfold layout at laidOut
  rcases Option.bind_eq_some_iff.mp laidOut with ⟨m, found, made⟩
  have name := SchemaModel.find_name found
  rcases generatedAt_cases made with ⟨_, _, rfl⟩ | ⟨_, _, _, _, _, _, _, _, _, _, _, _, rfl⟩
  · simp [Elem.castTo, name]
  · simp [Elem.castTo, name]

theorem serialize_self (a : Accessor schema) (buf : Bytes) :
    serialize a.typeName a buf = .ok (Elem.serialize a.elem a.obj buf) := by
  simp only [serialize, castTo_self a.laidOut]
  rfl

theorem deserializeAt_self (a : Accessor schema) (buf : Bytes) (off : Nat) :
    deserializeAt a.typeName buf off a =
      match Elem.deserializeAt buf a.elem ⟨off, a.obj⟩ with
      | .ok _ stop => (.ok (), { a with obj := stop.obj })
      | .error e stop => (.error e, { a with obj := stop.obj }) := by
  simp only [deserializeAt, castTo_self a.laidOut]
  change (match onPart id (fun _ v => v) (Elem.deserializeAt buf a.elem) ⟨off, a.obj⟩ with
    | .ok _ stop => ((.ok (), { a with obj := stop.obj }) : Except Exc Unit × Accessor schema)
    | .error e stop => (.error e, { a with obj := stop.obj })) = _
  unfold onPart
  simp only [id_eq]
  cases Elem.deserializeAt buf a.elem ⟨off, a.obj⟩ with
  | ok u stop => rfl
  | error e stop => rfl

end Arcal.Cdr
