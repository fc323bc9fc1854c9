import Arcal.Lacal.Registry
import Arcal.Lacal.Bridge

/-! `TopicMonitor`: how it finds topics and takes samples off them. Readers and conditions are
handles that DDS gives out; what the monitor knows of a handle is in its three maps alone. -/

namespace Arcal.Lacal

open Transition
open Schema (CaseTable)

structure Payload where
  valid : Bool
  tag : UInt32
  data : Bytes
  deriving DecidableEq

structure Endpoint where
  valid : Bool
  topicName : Option Bytes
  typeName : Option Bytes

structure ReaderEntity where
  topic : Bytes
  cache : List Payload := []

def kArcalTypeName : Bytes := utf8 "arcal_dds::OpaquePayload"

/-- Where `run` stands: the triggers and samples that its loops have yet to come to. -/
inductive MonitorAt
  | waiting
  | triggered (rest : List Int)
  | polling (batch : List Endpoint) (rest : List Int)
  | draining (topicName : Bytes) (batch : List Payload) (rest : List Int)

/-- The samples that were taken and are still to be published, with the topic. -/
def MonitorAt.inHand : MonitorAt → List (Bytes × Payload)
  | .draining topicName batch _ => batch.map (Prod.mk topicName)
  | _ => []

/-- The first fields are what DDS keeps, with the handles it has given out. The logs say what
came to readers of a topic, what their caches dropped, and what was published by which name. -/
structure TopicMonitor where
  builtinCond : Int
  entities : Int → Option ReaderEntity := fun _ => none
  handles : List Int := [builtinCond]
  attached : List Int := [builtinCond]
  builtin : List Endpoint := []
  readers : Bytes → Option Int := fun _ => none
  conditions : Bytes → Option Int := fun _ => none
  condTopics : Int → Option Bytes := fun _ => none
  pc : MonitorAt := .waiting
  arrived : List (Bytes × Payload) := []
  dropped : List (Bytes × Payload) := []
  published : List (Bytes × Payload) := []

namespace TopicMonitor

/-- How the calls of `ensureReader` to DDS end; a condition can fail unnoticed. -/
inductive Created
  | topicFailed
  | readerFailed
  | made (reader cond : Int)

inductive Label
  | arrive (reader : Int) (sample : Payload)
  | announce (endpoint : Endpoint)
  | wake (triggered : List Int)
  | next
  | ensureReader (created : Created)

def wanted (m : TopicMonitor) (ep : Endpoint) : Option Bytes :=
  match ep.valid, ep.topicName, ep.typeName with
  | true, some topicName, some typeName =>
      if typeName = kArcalTypeName ∧ m.readers topicName = none then some topicName else none
  | _, _, _ => none

/-- A handle that DDS has not given out; an error is negative. -/
def freshHandle (m : TopicMonitor) (reader cond : Int) : Prop :=
  0 ≤ reader ∧ reader ∉ m.handles ∧ (cond < 0 ∨ cond ∉ reader :: m.handles)

instance (m : TopicMonitor) (reader cond : Int) : Decidable (m.freshHandle reader cond) :=
  inferInstanceAs (Decidable (_ ∧ _))

def addReader (m : TopicMonitor) (topicName : Bytes) (reader cond : Int) : TopicMonitor :=
  { m with
    entities := Function.update m.entities reader (some { topic := topicName })
    handles := cond :: reader :: m.handles
    attached := if 0 ≤ cond then cond :: m.attached else m.attached
    readers := Function.update m.readers topicName (some reader)
    conditions := Function.update m.conditions topicName (some cond)
    condTopics := Function.update m.condTopics cond (some topicName) }

/-- The samples that a reader's cache of this depth keeps, behind those it drops. -/
def receive (depth : Nat) (m : TopicMonitor) (reader : Int) (entity : ReaderEntity)
    (sample : Payload) : TopicMonitor :=
  let cache := entity.cache ++ [sample]
  let excess := cache.length - depth
  { m with
    entities := Function.update m.entities reader (some { entity with cache := cache.drop excess })
    arrived := m.arrived ++ [(entity.topic, sample)]
    dropped := m.dropped ++ (cache.take excess).map (Prod.mk entity.topic) }

def drainReader (m : TopicMonitor) (topicName : Bytes) (rest : List Int) : TopicMonitor :=
  match m.readers topicName with
  | none => { m with pc := .triggered rest }
  | some reader =>
      match m.entities reader with
      | none => { m with pc := .triggered rest }
      | some entity =>
          { m with
            entities := Function.update m.entities reader
              (some { entity with cache := entity.cache.drop 16 })
            pc := .draining topicName (entity.cache.take 16) rest }

def nextStep (m : TopicMonitor) : Option TopicMonitor :=
  match m.pc with
  | .waiting => none
  | .triggered [] => some { m with pc := .waiting }
  | .triggered (cond :: rest) =>
      if cond = m.builtinCond then
        some { m with builtin := m.builtin.drop 32, pc := .polling (m.builtin.take 32) rest }
      else
        match m.condTopics cond with
        | some topicName => some (m.drainReader topicName rest)
        | none => some { m with pc := .triggered rest }
  | .polling [] rest => some { m with pc := .triggered rest }
  | .polling (ep :: more) rest =>
      match m.wanted ep with
      | none => some { m with pc := .polling more rest }
      | some _ => none
  | .draining _ [] rest => some { m with pc := .triggered rest }
  | .draining topicName (sample :: more) rest =>
      some { m with
        pc := .draining topicName more rest
        published := m.published ++ if sample.valid then [(topicName, sample)] else [] }

def step (depth : Nat) (m : TopicMonitor) : Label → Option TopicMonitor
  | .arrive reader sample =>
      (m.entities reader).map fun entity => m.receive depth reader entity sample
  | .announce endpoint => some { m with builtin := m.builtin ++ [endpoint] }
  | .wake triggered =>
      match m.pc with
      | .waiting =>
          if triggered.length ≤ 64 ∧ ∀ cond ∈ triggered, cond ∈ m.attached then
            some { m with pc := .triggered triggered }
          else none
      | _ => none
  | .next => m.nextStep
  | .ensureReader created =>
      match m.pc with
      | .polling (ep :: more) rest =>
          match m.wanted ep, created with
          | none, _ => none
          | some topicName, .made reader cond =>
              if m.freshHandle reader cond then
                some { m.addReader topicName reader cond with pc := .polling more rest }
              else none
          | some _, _ => some { m with pc := .polling more rest }
      | _ => none

inductive Moved (depth : Nat) (m : TopicMonitor) : TopicMonitor → Prop
  | arrive {reader : Int} {entity : ReaderEntity} {sample : Payload}
      (there : m.entities reader = some entity) :
      Moved depth m (m.receive depth reader entity sample)
  | announce (endpoint : Endpoint) :
      Moved depth m { m with builtin := m.builtin ++ [endpoint] }
  -- the loops go on, and no sample is in hand
  | goOn {builtin : List Endpoint} {pc : MonitorAt} (before : m.pc.inHand = [])
      (after : pc.inHand = []) : Moved depth m { m with builtin, pc }
  | drain {cond reader : Int} {entity : ReaderEntity} {topicName : Bytes} {rest : List Int}
      (there : m.pc = .triggered (cond :: rest)) (known : m.condTopics cond = some topicName)
      (has : m.readers topicName = some reader) (isEntity : m.entities reader = some entity) :
      Moved depth m { m with
        entities := Function.update m.entities reader
          (some { entity with cache := entity.cache.drop 16 })
        pc := .draining topicName (entity.cache.take 16) rest }
  | publish {topicName : Bytes} {sample : Payload} {more : List Payload} {rest : List Int}
      (there : m.pc = .draining topicName (sample :: more) rest) :
      Moved depth m { m with
        pc := .draining topicName more rest
        published := m.published ++ if sample.valid then [(topicName, sample)] else [] }
  | addReader {topicName : Bytes} {reader cond : Int} {ep : Endpoint} {more : List Endpoint}
      {rest : List Int} (there : m.pc = .polling (ep :: more) rest)
      (unknown : m.readers topicName = none) (fresh : m.freshHandle reader cond) :
      Moved depth m { m.addReader topicName reader cond with pc := .polling more rest }

section Inversion

variable {depth : Nat} {m next : TopicMonitor}

theorem wanted_unknown {ep : Endpoint} {topicName : Bytes} (want : m.wanted ep = some topicName) :
    m.readers topicName = none := by
  unfold wanted at want
  split at want
  · split at want
    · next both =>
      rw [← Option.some.inj want]
      exact both.2
    · cases want
  · cases want

theorem moved_drain {cond : Int} {topicName : Bytes} {rest : List Int}
    (there : m.pc = .triggered (cond :: rest)) (known : m.condTopics cond = some topicName) :
    Moved depth m (m.drainReader topicName rest) := by
  have empty : m.pc.inHand = [] := by rw [there]; rfl
  unfold drainReader
  split
  · exact .goOn empty rfl
  · next reader has =>
    split
    · exact .goOn empty rfl
    · next entity isEntity => exact .drain there known has isEntity

theorem moved_next (taken : m.nextStep = some next) : Moved depth m next := by
  unfold nextStep at taken
  split at taken
  · cases taken
  · next there =>
    injection taken with same
    rw [← same]
    exact .goOn (by rw [there]; rfl) rfl
  · next cond rest there =>
    have empty : m.pc.inHand = [] := by rw [there]; rfl
    split at taken
    · injection taken with same
      rw [← same]
      exact .goOn empty rfl
    · split at taken
      · next topicName known =>
        injection taken with same
        rw [← same]
        exact moved_drain there known
      · injection taken with same
        rw [← same]
        exact .goOn empty rfl
  · next there =>
    injection taken with same
    rw [← same]
    exact .goOn (by rw [there]; rfl) rfl
  · next ep more rest there =>
    split at taken
    · injection taken with same
      rw [← same]
      exact .goOn (by rw [there]; rfl) rfl
    · cases taken
  · next there =>
    injection taken with same
    rw [← same]
    exact .goOn (by rw [there]; rfl) rfl
  · next topicName sample more rest there =>
    injection taken with same
    rw [← same]
    exact .publish there

theorem step_moved {label : Label} (taken : m.step depth label = some next) :
    Moved depth m next := by
  cases label with
  | arrive reader sample =>
      obtain ⟨entity, there, same⟩ := Option.map_eq_some_iff.mp taken
      rw [← same]
      exact .arrive there
  | announce endpoint =>
      injection taken with same
      rw [← same]
      exact .announce endpoint
  | wake triggered =>
      simp only [step] at taken
      split at taken
      · next there =>
        split at taken
        · injection taken with same
          rw [← same]
          exact .goOn (by rw [there]; rfl) rfl
        · cases taken
      · cases taken
  | next => exact moved_next taken
  | ensureReader created =>
      simp only [step] at taken
      split at taken
      · next ep more rest there =>
        split at taken
        · cases taken
        · next topicName reader cond want =>
          split at taken
          · next fresh =>
            injection taken with same
            rw [← same]
            exact .addReader there (wanted_unknown want) fresh
          · cases taken
        · injection taken with same
          rw [← same]
          exact .goOn (by rw [there]; rfl) rfl
      · cases taken

end Inversion

/-- Each reader is that of its topic and the topic's only one, and each condition that can
wake the monitor stands for a topic that has a reader. -/
structure Mapped (m : TopicMonitor) : Prop where
  entity : ∀ topicName reader, m.readers topicName = some reader →
    ∃ entity, m.entities reader = some entity ∧ entity.topic = topicName
  owner : ∀ reader entity, m.entities reader = some entity →
    m.readers entity.topic = some reader ∧ reader ∈ m.handles
  attached : ∀ cond ∈ m.attached, cond = m.builtinCond ∨ 0 ≤ cond ∧ cond ∈ m.handles ∧
    ∃ topicName, m.condTopics cond = some topicName ∧ m.readers topicName ≠ none

section Maps

variable {depth : Nat} {m next : TopicMonitor}

theorem mapped_constructed (builtinCond : Int) : Mapped { builtinCond } where
  entity := by
    intro topicName reader none
    cases none
  owner := by
    intro reader entity none
    cases none
  attached := fun _ inside => .inl (List.mem_singleton.mp inside)

theorem Mapped.recache (mapped : Mapped m) {reader : Int} {entity : ReaderEntity}
    (there : m.entities reader = some entity) (cache : List Payload) (topicName : Bytes)
    (other : Int) (named : m.readers topicName = some other) :
    ∃ entity', Function.update m.entities reader (some { entity with cache }) other =
      some entity' ∧ entity'.topic = topicName := by
  obtain ⟨entity', there', isTopic⟩ := mapped.entity topicName other named
  by_cases same : other = reader
  · subst same
    rw [there] at there'
    cases there'
    exact ⟨_, Function.update_self .., isTopic⟩
  · exact ⟨entity', by rw [Function.update_of_ne same, there'], isTopic⟩

theorem Mapped.recache_owner (mapped : Mapped m) {reader : Int} {entity : ReaderEntity}
    (there : m.entities reader = some entity) (cache : List Payload) (other : Int)
    (entity' : ReaderEntity)
    (there' : Function.update m.entities reader (some { entity with cache }) other =
      some entity') : m.readers entity'.topic = some other ∧ other ∈ m.handles := by
  by_cases same : other = reader
  · subst same
    rw [Function.update_self] at there'
    cases there'
    exact mapped.owner other entity there
  · rw [Function.update_of_ne same] at there'
    exact mapped.owner other entity' there'

theorem Mapped.addReader (mapped : Mapped m) {topicName : Bytes} {reader cond : Int}
    (unknown : m.readers topicName = none) (fresh : m.freshHandle reader cond) :
    Mapped (m.addReader topicName reader cond) where
  entity := by
    intro other handle named
    simp only [TopicMonitor.addReader] at named ⊢
    by_cases same : other = topicName
    · subst same
      rw [Function.update_self] at named
      cases named
      exact ⟨_, Function.update_self .., rfl⟩
    · rw [Function.update_of_ne same] at named
      obtain ⟨entity, there, isTopic⟩ := mapped.entity other handle named
      have apart : handle ≠ reader := by
        intro isReader
        rw [isReader] at there
        exact fresh.2.1 (mapped.owner reader entity there).2
      exact ⟨entity, by rw [Function.update_of_ne apart, there], isTopic⟩
  owner := by
    intro handle entity there
    simp only [TopicMonitor.addReader] at there ⊢
    by_cases same : handle = reader
    · subst same
      rw [Function.update_self] at there
      cases there
      exact ⟨Function.update_self .., List.mem_cons_of_mem _ List.mem_cons_self⟩
    · rw [Function.update_of_ne same] at there
      obtain ⟨named, given⟩ := mapped.owner handle entity there
      have apart : entity.topic ≠ topicName := by
        intro isTopic
        rw [isTopic, unknown] at named
        cases named
      exact ⟨by rw [Function.update_of_ne apart, named],
        List.mem_cons_of_mem _ (List.mem_cons_of_mem _ given)⟩
  attached := by
    intro other inside
    simp only [TopicMonitor.addReader] at inside ⊢
    have old : other ∈ m.attached → other = m.builtinCond ∨ 0 ≤ other ∧
        other ∈ cond :: reader :: m.handles ∧ ∃ name,
          Function.update m.condTopics cond (some topicName) other = some name ∧
          Function.update m.readers topicName (some reader) name ≠ none := by
      intro before
      rcases mapped.attached other before with isBuiltin | ⟨valid, given, name, known, has⟩
      · exact .inl isBuiltin
      · have apart : other ≠ cond := by
          rintro rfl
          rcases fresh.2.2 with negative | new
          · omega
          · exact new (List.mem_cons_of_mem _ given)
        have kept : name ≠ topicName := by
          intro isTopic
          rw [isTopic] at has
          exact has unknown
        refine .inr ⟨valid, List.mem_cons_of_mem _ (List.mem_cons_of_mem _ given), name, ?_, ?_⟩
        · rw [Function.update_of_ne apart, known]
        · rw [Function.update_of_ne kept]
          exact has
    split at inside
    · next valid =>
      rcases List.mem_cons.mp inside with isNew | before
      · subst isNew
        exact .inr ⟨valid, List.mem_cons_self, topicName, Function.update_self ..,
          by rw [Function.update_self]; exact Option.some_ne_none _⟩
      · exact old before
    · exact old inside

theorem Mapped.step (mapped : Mapped m) (moved : Moved depth m next) : Mapped next := by
  cases moved with
  | @arrive reader entity sample there =>
      exact ⟨mapped.recache there _, mapped.recache_owner there _, mapped.attached⟩
  | announce => exact ⟨mapped.entity, mapped.owner, mapped.attached⟩
  | goOn => exact ⟨mapped.entity, mapped.owner, mapped.attached⟩
  | drain there known has isEntity =>
      exact ⟨mapped.recache isEntity _, mapped.recache_owner isEntity _, mapped.attached⟩
  | publish => exact ⟨mapped.entity, mapped.owner, mapped.attached⟩
  | addReader there unknown fresh =>
      have added := mapped.addReader unknown fresh
      exact ⟨added.entity, added.owner, added.attached⟩

end Maps

def onTopic (topicName : Bytes) (log : List (Bytes × Payload)) : List Payload :=
  (log.filter fun entry => entry.1 = topicName && entry.2.valid).map Prod.snd

theorem onTopic_append (topicName : Bytes) (first second : List (Bytes × Payload)) :
    onTopic topicName (first ++ second) = onTopic topicName first ++ onTopic topicName second := by
  rw [onTopic, List.filter_append, List.map_append, onTopic, onTopic]

def cached (m : TopicMonitor) (topicName : Bytes) : List (Bytes × Payload) :=
  ((m.readers topicName).bind m.entities).elim []
    fun entity => entity.cache.map (Prod.mk topicName)

/-- What was published, what is in hand, and what can be taken next. -/
def taken (m : TopicMonitor) (topicName : Bytes) : List Payload :=
  onTopic topicName (m.published ++ m.pc.inHand ++ m.cached topicName)

/-- Samples reach the clients in order, and none is lost but by its reader's cache. -/
structure Flows (m : TopicMonitor) (topicName : Bytes) : Prop where
  order : (m.taken topicName).Sublist (onTopic topicName m.arrived)
  accounted : (m.taken topicName ++ onTopic topicName m.dropped).Perm (onTopic topicName m.arrived)

section Flow

variable {depth : Nat} {m next : TopicMonitor}

theorem onTopic_other {topicName other : Bytes} (apart : other ≠ topicName)
    (samples : List Payload) : onTopic topicName (samples.map (Prod.mk other)) = [] := by
  induction samples with
  | nil => rfl
  | cons sample rest ih => simp [onTopic, apart]

theorem cached_own (mapped : Mapped m) {reader : Int} {entity : ReaderEntity}
    (there : m.entities reader = some entity) :
    m.cached entity.topic = entity.cache.map (Prod.mk entity.topic) := by
  rw [cached, (mapped.owner reader entity there).1, Option.bind_some, there]
  rfl

theorem cached_recache (mapped : Mapped m) {reader : Int} {entity : ReaderEntity}
    (there : m.entities reader = some entity) {cache : List Payload} {topicName : Bytes}
    (readers : next.readers = m.readers) (entities : next.entities =
      Function.update m.entities reader (some { entity with cache })) :
    next.cached topicName =
      if entity.topic = topicName then cache.map (Prod.mk topicName) else m.cached topicName := by
  rw [cached, cached, readers, entities]
  split
  · next own =>
    rw [← own, (mapped.owner reader entity there).1, Option.bind_some, Function.update_self]
    rfl
  · next other =>
    cases named : m.readers topicName with
    | none => rfl
    | some handle =>
        obtain ⟨entity', there', isTopic⟩ := mapped.entity topicName handle named
        have apart : handle ≠ reader := by
          rintro rfl
          rw [there] at there'
          cases there'
          exact other isTopic
        simp only [Option.bind_some, Function.update_of_ne apart]

theorem Flows.of_same {topicName : Bytes} (flows : Flows m topicName)
    (taken : next.taken topicName = m.taken topicName) (arrived : next.arrived = m.arrived)
    (dropped : next.dropped = m.dropped) : Flows next topicName :=
  ⟨by rw [taken, arrived]; exact flows.order, by rw [taken, arrived, dropped]; exact flows.accounted⟩

theorem Flows.receive (mapped : Mapped m) {topicName : Bytes} (flows : Flows m topicName)
    (depth : Nat) {reader : Int} {entity : ReaderEntity}
    (there : m.entities reader = some entity) (sample : Payload) :
    Flows (m.receive depth reader entity sample) topicName := by
  let cache := entity.cache ++ [sample]
  let excess := cache.length - depth
  have recached : (m.receive depth reader entity sample).cached topicName =
      if entity.topic = topicName then (cache.drop excess).map (Prod.mk topicName)
      else m.cached topicName := cached_recache mapped there rfl rfl
  have arrived : onTopic topicName (m.receive depth reader entity sample).arrived =
      onTopic topicName m.arrived ++ onTopic topicName ([sample].map (Prod.mk entity.topic)) :=
    onTopic_append _ _ _
  have dropped : onTopic topicName (m.receive depth reader entity sample).dropped =
      onTopic topicName m.dropped ++
        onTopic topicName ((cache.take excess).map (Prod.mk entity.topic)) := onTopic_append _ _ _
  have later : (m.receive depth reader entity sample).taken topicName =
      onTopic topicName (m.published ++ m.pc.inHand) ++
        onTopic topicName ((m.receive depth reader entity sample).cached topicName) :=
    onTopic_append _ _ _
  by_cases own : entity.topic = topicName
  · subst own
    rw [if_pos rfl] at recached
    rw [recached] at later
    have before : m.taken entity.topic = onTopic entity.topic (m.published ++ m.pc.inHand) ++
        onTopic entity.topic (entity.cache.map (Prod.mk entity.topic)) := by
      rw [TopicMonitor.taken, cached_own mapped there, onTopic_append]
    -- the cache is cut in two, behind the sample that is new
    have parts : onTopic entity.topic ((cache.take excess).map (Prod.mk entity.topic)) ++
        onTopic entity.topic ((cache.drop excess).map (Prod.mk entity.topic)) =
          onTopic entity.topic (entity.cache.map (Prod.mk entity.topic)) ++
            onTopic entity.topic ([sample].map (Prod.mk entity.topic)) := by
      rw [← onTopic_append, ← List.map_append, List.take_append_drop, ← onTopic_append,
        ← List.map_append]
    have order := flows.order
    have accounted := flows.accounted
    rw [before] at order accounted
    refine ⟨?_, ?_⟩
    · rw [later, arrived]
      calc
        (onTopic entity.topic (m.published ++ m.pc.inHand) ++
            onTopic entity.topic ((cache.drop excess).map (Prod.mk entity.topic))).Sublist
          (onTopic entity.topic (m.published ++ m.pc.inHand) ++
            (onTopic entity.topic ((cache.take excess).map (Prod.mk entity.topic)) ++
              onTopic entity.topic ((cache.drop excess).map (Prod.mk entity.topic)))) :=
          (List.sublist_append_right _ _).append_left _
        _ = onTopic entity.topic (m.published ++ m.pc.inHand) ++
              onTopic entity.topic (entity.cache.map (Prod.mk entity.topic)) ++
                onTopic entity.topic ([sample].map (Prod.mk entity.topic)) := by
          rw [parts, List.append_assoc]
        List.Sublist _ (onTopic entity.topic m.arrived ++
            onTopic entity.topic ([sample].map (Prod.mk entity.topic))) :=
          order.append_right _
    · rw [later, arrived, dropped, List.perm_iff_count]
      intro one
      have cut := congrArg (List.count one) parts
      have whole := accounted.count_eq one
      simp only [List.count_append] at cut whole ⊢
      omega
  · rw [if_neg own] at recached
    rw [onTopic_other own, List.append_nil] at arrived dropped
    refine ⟨?_, ?_⟩
    · rw [later, recached, arrived, ← onTopic_append]
      exact flows.order
    · rw [later, recached, arrived, dropped, ← onTopic_append]
      exact flows.accounted

theorem taken_drain (mapped : Mapped m) {cond reader : Int} {entity : ReaderEntity}
    {other : Bytes} {rest : List Int} (there : m.pc = .triggered (cond :: rest))
    (has : m.readers other = some reader) (isEntity : m.entities reader = some entity)
    (topicName : Bytes) :
    TopicMonitor.taken { m with
      entities := Function.update m.entities reader
        (some { entity with cache := entity.cache.drop 16 })
      pc := .draining other (entity.cache.take 16) rest } topicName = m.taken topicName := by
  have isTopic : entity.topic = other := by
    obtain ⟨entity', there', isTopic⟩ := mapped.entity other reader has
    rw [isEntity] at there'
    cases there'
    exact isTopic
  have recached : TopicMonitor.cached { m with
      entities := Function.update m.entities reader
        (some { entity with cache := entity.cache.drop 16 })
      pc := .draining other (entity.cache.take 16) rest } topicName = _ :=
    cached_recache mapped isEntity rfl rfl
  have empty : m.pc.inHand = [] := by rw [there]; rfl
  rw [TopicMonitor.taken, TopicMonitor.taken, recached, empty, List.append_nil]
  simp only [MonitorAt.inHand, onTopic_append]
  by_cases own : entity.topic = topicName
  · rw [if_pos own, ← own, cached_own mapped isEntity, List.append_assoc, ← onTopic_append,
      ← isTopic, ← List.map_append, List.take_append_drop]
  · rw [if_neg own, onTopic_other (isTopic ▸ own), List.append_nil]

theorem onTopic_valid (topicName other : Bytes) (sample : Payload) :
    onTopic topicName (if sample.valid then [(other, sample)] else []) =
      onTopic topicName [(other, sample)] := by
  cases valid : sample.valid with
  | true => rfl
  | false => simp [onTopic, valid]

theorem taken_publish {other : Bytes} {sample : Payload} {more : List Payload} {rest : List Int}
    (there : m.pc = .draining other (sample :: more) rest) (topicName : Bytes) :
    TopicMonitor.taken { m with
      pc := .draining other more rest
      published := m.published ++ if sample.valid then [(other, sample)] else [] } topicName =
      m.taken topicName := by
  have hand : m.pc.inHand = [(other, sample)] ++ more.map (Prod.mk other) := by
    rw [there]
    rfl
  rw [TopicMonitor.taken, TopicMonitor.taken, hand]
  simp only [MonitorAt.inHand, onTopic_append, onTopic_valid, List.append_assoc]
  rfl

theorem taken_addReader (mapped : Mapped m) {other : Bytes} {reader cond : Int} {ep : Endpoint}
    {more : List Endpoint} {rest : List Int} (there : m.pc = .polling (ep :: more) rest)
    (unknown : m.readers other = none) (fresh : m.freshHandle reader cond) (topicName : Bytes) :
    TopicMonitor.taken { m.addReader other reader cond with pc := .polling more rest } topicName =
      m.taken topicName := by
  have empty : m.pc.inHand = [] := by rw [there]; rfl
  have same : TopicMonitor.cached { m.addReader other reader cond with
      pc := .polling more rest } topicName = m.cached topicName := by
    simp only [TopicMonitor.cached, TopicMonitor.addReader]
    by_cases own : topicName = other
    · rw [own, Function.update_self, Option.bind_some, Function.update_self, unknown]
      rfl
    · rw [Function.update_of_ne own]
      cases named : m.readers topicName with
      | none => rfl
      | some handle =>
          obtain ⟨entity, there, _⟩ := mapped.entity topicName handle named
          have apart : handle ≠ reader := by
            rintro rfl
            exact fresh.2.1 (mapped.owner handle entity there).2
          simp only [Option.bind_some, Function.update_of_ne apart]
  rw [TopicMonitor.taken, TopicMonitor.taken, same, empty]
  rfl

theorem Flows.step (mapped : Mapped m) {topicName : Bytes} (flows : Flows m topicName)
    (moved : Moved depth m next) : Flows next topicName := by
  cases moved with
  | arrive there => exact flows.receive mapped depth there _
  | announce => exact flows.of_same rfl rfl rfl
  | @goOn builtin pc before after =>
      refine flows.of_same ?_ rfl rfl
      rw [taken, taken, before, after]
      rfl
  | drain there known has isEntity =>
      exact flows.of_same (taken_drain mapped there has isEntity topicName) rfl rfl
  | publish there => exact flows.of_same (taken_publish there topicName) rfl rfl
  | addReader there unknown fresh =>
      exact flows.of_same (taken_addReader mapped there unknown fresh topicName) rfl rfl

theorem flows_run {builtinCond : Int} {labels : List Label}
    (whole : run (step depth) { builtinCond } labels = some m) (topicName : Bytes) :
    Mapped m ∧ Flows m topicName := by
  have keeps : ∀ (m : TopicMonitor) (label : Label) (next : TopicMonitor),
      Mapped m ∧ Flows m topicName → step depth m label = some next →
        Mapped next ∧ Flows next topicName := by
    intro m label next both taken
    have moved := step_moved taken
    exact ⟨both.1.step moved, both.2.step both.1 moved⟩
  exact run_invariant keeps
    ⟨mapped_constructed builtinCond, List.Sublist.refl _, List.Perm.refl _⟩ whole

theorem Flows.published {topicName : Bytes} (flows : Flows m topicName) :
    (onTopic topicName m.published).Sublist (onTopic topicName m.arrived) := by
  have order := flows.order
  rw [taken, List.append_assoc, onTopic_append] at order
  exact (List.sublist_append_left _ _).trans order

/-- In every run, what is published by a topic's name is what came to a reader of that topic,
in order and each sample once; the rest is in hand, in the cache, or dropped by it. There is
one reader for a topic, and each condition that can wake the monitor leads to one. -/
theorem published_in_order {builtinCond : Int} {labels : List Label}
    (whole : run (step depth) { builtinCond } labels = some m) (topicName : Bytes) :
    (onTopic topicName m.published).Sublist (onTopic topicName m.arrived) ∧
      (onTopic topicName (m.published ++ m.pc.inHand ++ m.cached topicName ++ m.dropped)).Perm
        (onTopic topicName m.arrived) ∧
      (∀ reader entity, m.entities reader = some entity →
        m.readers entity.topic = some reader) ∧
      ∀ cond ∈ m.attached, cond = m.builtinCond ∨
        ∃ topic, m.condTopics cond = some topic ∧ m.readers topic ≠ none := by
  obtain ⟨mapped, flows⟩ := flows_run whole topicName
  have accounted := flows.accounted
  rw [taken, ← onTopic_append] at accounted
  refine ⟨flows.published, accounted,
    fun reader entity there => (mapped.owner reader entity there).1, ?_⟩
  intro cond inside
  rcases mapped.attached cond inside with isBuiltin | ⟨_, _, topic, known, has⟩
  · exact .inl isBuiltin
  · exact .inr ⟨topic, known, has⟩

theorem published_valid {builtinCond : Int} {labels : List Label}
    (whole : run (step depth) { builtinCond } labels = some m) :
    ∀ entry ∈ m.published, entry.2.valid = true := by
  have keeps : ∀ (m : TopicMonitor) (label : Label) (next : TopicMonitor),
      (∀ entry ∈ m.published, entry.2.valid = true) → step depth m label = some next →
        ∀ entry ∈ next.published, entry.2.valid = true := by
    intro m label next valid taken entry inside
    cases step_moved taken with
    | publish there =>
        rcases List.mem_append.mp inside with before | isNew
        · exact valid entry before
        · split at isNew
          · next isValid =>
            rw [List.mem_singleton.mp isNew]
            exact isValid
          · cases isNew
    | _ => exact valid entry inside
  exact run_invariant keeps (fun _ none => absurd none List.not_mem_nil) whole

end Flow

end TopicMonitor

section Delivered

variable {schema : SchemaModel} (fp : Json.Floating) (bridge : Option Cdr.CdrRegistry)

/-- What `publishDecoded` hands to `deliver`, if it does and no name holds a line break. -/
def decodedSample [CaseTable] (schema : SchemaModel) (topicName : Bytes) (payload : Payload) :
    Option Sample :=
  match publishDecoded schema fp bridge payload.tag payload.data with
  | .delivered messageName json =>
      if names : newline ∉ topicName ∧ newline ∉ messageName then
        some ⟨topicName, messageName, json, names.1, names.2⟩
      else none
  | _ => none

def Server.delivered (labels : List Server.Label) : List Sample :=
  labels.filterMap fun
    | .deliver sample => some sample
    | _ => none

theorem deliveredTo_sublist (id accepted : Nat) (labels : List Server.Label) :
    (Server.deliveredTo id accepted labels).Sublist (Server.delivered labels) := by
  induction labels generalizing accepted with
  | nil => exact List.Sublist.slnil
  | cons label rest ih =>
      cases label with
      | deliver sample =>
          simp only [Server.deliveredTo, Server.delivered, List.filterMap_cons]
          split
          · exact (ih accepted).cons_cons sample
          · exact (ih accepted).cons sample
      | accept => exact ih (accepted + 1)
      | input other input => exact ih accepted
      | destroy other => exact ih accepted
      | copySubs subs => exact ih accepted
      | monitor => exact ih accepted

theorem decodedSample_topic [CaseTable] {topicName : Bytes} {payload : Payload} {sample : Sample}
    (decoded : decodedSample fp bridge schema topicName payload = some sample) :
    sample.topicName = topicName := by
  unfold decodedSample at decoded
  split at decoded
  · split at decoded
    · injection decoded with same
      rw [← same]
    · cases decoded
  · cases decoded

theorem decoded_of_topic [CaseTable] (topicName : Bytes) {log : List (Bytes × Payload)}
    (valid : ∀ entry ∈ log, entry.2.valid = true) :
    (log.filterMap fun entry => decodedSample fp bridge schema entry.1 entry.2).filter
        (fun sample => sample.topicName = topicName) =
      (TopicMonitor.onTopic topicName log).filterMap (decodedSample fp bridge schema topicName) := by
  induction log with
  | nil => rfl
  | cons entry rest ih =>
      have isValid := valid entry List.mem_cons_self
      have later := ih fun other inside => valid other (List.mem_cons_of_mem _ inside)
      by_cases own : entry.1 = topicName
      · have here : TopicMonitor.onTopic topicName (entry :: rest) =
            entry.2 :: TopicMonitor.onTopic topicName rest := by
          simp [TopicMonitor.onTopic, own, isValid]
        rw [here, List.filterMap_cons, List.filterMap_cons, own]
        cases decoded : decodedSample fp bridge schema topicName entry.2 with
        | none => exact later
        | some sample =>
            rw [List.filter_cons_of_pos (by simp [decodedSample_topic fp bridge decoded]), later]
      · have here : TopicMonitor.onTopic topicName (entry :: rest) =
            TopicMonitor.onTopic topicName rest := by
          simp [TopicMonitor.onTopic, own]
        rw [here, List.filterMap_cons]
        cases decoded : decodedSample fp bridge schema entry.1 entry.2 with
        | none => exact later
        | some sample =>
            rw [List.filter_cons_of_neg (by simp [decodedSample_topic fp bridge decoded, own]),
              later]

/-- From the bus to a client: of one topic, whatever else goes on, a client of the server gets
samples that are decoded of what came to the reader of that topic, in order and none twice. -/
theorem topic_reaches_client [CaseTable] {depth : Nat} {builtinCond : Int}
    {monitorLabels : List TopicMonitor.Label} {m : TopicMonitor}
    (monitorRun : run (TopicMonitor.step depth) { builtinCond } monitorLabels = some m)
    {parse : Bytes → Except Exc JsonText.Value} {port : UInt16} {labels : List Server.Label}
    {s : Server} (serverRun : run (Server.step parse port) {} labels = some s)
    (bridged : Server.delivered labels <+:
      m.published.filterMap fun entry => decodedSample fp bridge schema entry.1 entry.2)
    (id : Nat) (topicName : Bytes) :
    ∃ moves, run (Lacal.step parse port) {} moves = some (s.clients id).machine ∧
      ((Server.arrivals moves).filter fun sample => sample.topicName = topicName).Sublist
        ((TopicMonitor.onTopic topicName m.arrived).filterMap
          (decodedSample fp bridge schema topicName)) := by
  refine ⟨_, Server.session_seen serverRun id, ?_⟩
  have arrives := (Server.movesAlong_arrivals id Server.kept_start serverRun).1
  have valid := TopicMonitor.published_valid monitorRun
  have order := (TopicMonitor.flows_run monitorRun topicName).2.published
  have through : (Server.arrivals _).Sublist
      (m.published.filterMap fun entry => decodedSample fp bridge schema entry.1 entry.2) :=
    arrives.sublist.trans ((deliveredTo_sublist id 0 labels).trans bridged.sublist)
  have ofTopic := through.filter fun sample => sample.topicName = topicName
  rw [decoded_of_topic fp bridge topicName valid] at ofTopic
  exact ofTopic.trans (order.filterMap _)

end Delivered

section Sample

open Schema (sampleSchema headerLayout headerMembers unlabelledHeader latinCase)

attribute [local instance] latinCase

def headerAccessor : Cdr.Accessor sampleSchema := Dds.headerMessage.accessor unlabelledHeader

def headerSample : Payload :=
  ⟨true, headerAccessor.getAccessorType,
    Cdr.Elem.serialize headerAccessor.elem headerAccessor.obj []⟩

/-- The monitor finds a topic, makes a reader for it and takes the one sample it gets. -/
def headerLabels : List TopicMonitor.Label :=
  [.announce ⟨true, some (utf8 "Headers"), some kArcalTypeName⟩, .wake [1], .next,
    .ensureReader (.made 2 3), .next, .next, .arrive 2 headerSample, .wake [3], .next, .next]

theorem headerLabels_run :
    ∃ m, run (TopicMonitor.step 1) { builtinCond := 1 } headerLabels = some m ∧
      m.published = [(utf8 "Headers", headerSample)] :=
  ⟨_, rfl, rfl⟩

theorem headerSample_decoded :
    ∃ sample, decodedSample Json.plainFloating (some Cdr.sampleRegistry) sampleSchema
      (utf8 "Headers") headerSample = some sample := by
  have global : Global sampleSchema headerAccessor.typeName := by decide
  have declared : Cdr.Elem.ChoicesDeclared headerLayout unlabelledHeader := by
    simp [headerLayout, headerMembers, unlabelledHeader, Cdr.Elem.ChoicesDeclared,
      Cdr.Members.ChoicesDeclared]
  have published := publishDecoded_global Cdr.sampleSchema_built sampleSchema_globalClasses
    Json.plainFloating global Dds.unlabelledHeader_inLimits declared
  have named : newline ∉ utf8 "Headers" ∧ newline ∉ utf8 headerAccessor.typeName := by decide
  simp only [decodedSample, headerSample, published, dif_pos named]
  exact ⟨_, rfl⟩

theorem published_in_order_header :
    ∃ m, run (TopicMonitor.step 1) { builtinCond := 1 } headerLabels = some m ∧
      (TopicMonitor.onTopic (utf8 "Headers") m.published).Sublist
        (TopicMonitor.onTopic (utf8 "Headers") m.arrived) := by
  obtain ⟨m, whole, _⟩ := headerLabels_run
  exact ⟨m, whole, (TopicMonitor.published_in_order whole (utf8 "Headers")).1⟩

theorem topic_reaches_client_header :
    ∃ (m : TopicMonitor) (sample : Sample) (s : Server) (moves : List Label),
      run (TopicMonitor.step 1) { builtinCond := 1 } headerLabels = some m ∧
      run (Server.step Server.refuseAll 8766) {} [.accept, .deliver sample] = some s ∧
      run (Lacal.step Server.refuseAll 8766) {} moves = some (s.clients 0).machine ∧
      ((Server.arrivals moves).filter fun sample => sample.topicName = utf8 "Headers").Sublist
        ((TopicMonitor.onTopic (utf8 "Headers") m.arrived).filterMap (decodedSample
          Json.plainFloating (some Cdr.sampleRegistry) sampleSchema (utf8 "Headers"))) := by
  obtain ⟨m, monitorRun, published⟩ := headerLabels_run
  obtain ⟨sample, decoded⟩ := headerSample_decoded
  have bridged : Server.delivered [.accept, .deliver sample] <+:
      m.published.filterMap fun entry => decodedSample Json.plainFloating
        (some Cdr.sampleRegistry) sampleSchema entry.1 entry.2 := by
    rw [published, List.filterMap_cons, decoded]
    exact List.prefix_rfl
  obtain ⟨s, serverRun⟩ : ∃ s, run (Server.step Server.refuseAll 8766) {}
      [.accept, .deliver sample] = some s := ⟨_, rfl⟩
  obtain ⟨moves, session, order⟩ := topic_reaches_client Json.plainFloating
    (some Cdr.sampleRegistry) monitorRun serverRun bridged 0 (utf8 "Headers")
  exact ⟨m, sample, s, moves, monitorRun, serverRun, session, order⟩

end Sample

end Arcal.Lacal
