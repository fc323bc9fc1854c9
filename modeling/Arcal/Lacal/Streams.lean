import Arcal.Lacal.Announce

/-! `XUNSUB` against a delivery that is under way: the copied `XSUB`s may name a stream that
is gone. -/

namespace Arcal.Lacal

open JsonText (Value)
open Transition

/-- Every concrete subscription belongs to a stream the client still asks for. -/
def Session.Covered (s : Session) : Prop :=
  ∀ key ∈ s.concreteSubs.keys, ∃ streamId, s.Subscribed streamId ∧ keyOfStream streamId key = true

/-- What can be told of a stream from the events: the accepted line whose handler has not
returned, and whether the stream was taken away and not asked for again. -/
structure Watch where
  handling : Option Bytes := none
  gone : Bool := false

/-- A stream is gone with the first line that is posted in reply to its `XUNSUB`; where a client
is not told, when the handler returns. -/
def Watch.see (streamId : Bytes) (seen : Watch) : Event → Watch
  | .handled payload => ⟨some payload, seen.gone && !subscribes streamId payload⟩
  | .post .io _ => { seen with gone := seen.gone || seen.handling.any (unsubscribes streamId) }
  | .returned payload => ⟨none, seen.gone || unsubscribes streamId payload⟩
  | .post .monitor _ => seen
  | .generated _ _ => seen

def watch (streamId : Bytes) (events : List Event) : Watch := events.foldl (Watch.see streamId) {}

def gone (streamId : Bytes) (events : List Event) : Bool := (watch streamId events).gone

/-- Nothing is announced for a stream after the reply to its `XUNSUB`. -/
def Silent (events : List Event) : Prop :=
  ∀ before concrete subId, before ++ [.post .monitor (.xsubInfo concrete subId)] <+: events →
    gone concrete.streamId before = false

/-- A concrete subscription is only made for a stream the client still asks for. -/
def AllocatesSubscribed (m : Machine) : Label → Prop
  | .monitor => ∀ streamId, m.allocates = some streamId → m.session.Subscribed streamId
  | _ => True

/-- An accepted line whose handler has not returned. -/
def IoPc.Applied (io : IoPc) (payload : Bytes) : Prop :=
  ∃ lines closes, io = .replying payload true lines closes

/-- An `XUNSUB` is not answered, nor does its handler return, while the monitor is about to
announce something for the stream. -/
def RepliesAnnounced (m : Machine) : Label → Prop
  | .reply => ∀ payload streamId, m.io.Applied payload → unsubscribes streamId payload = true →
      ∀ concrete subId, m.monitor.announcing = some (concrete, subId) →
        concrete.streamId ≠ streamId
  | _ => True

theorem keyOfStream_iff {streamId : Bytes} (free : newline ∉ streamId) {concrete : Concrete}
    (named : concrete.Named) :
    keyOfStream streamId concrete.key = true ↔ streamId = concrete.streamId := by
  rw [keyOfStream, List.isPrefixOf_iff_prefix]
  constructor
  · intro given
    rcases given with ⟨rest, same⟩
    simp only [Concrete.key, List.append_assoc, List.singleton_append] at same
    exact (append_newline_inj free named.1 same).1
  · intro same
    rw [same, Concrete.key, List.append_assoc, List.append_assoc]
    exact List.prefix_append _ _

section Steps

variable {parse : Bytes → Except Exc Value} {port : UInt16} {m next : Machine}

theorem Effect.covered {s : Session} {payload : Bytes} {handled : Handled}
    (effect : Effect parse s payload handled) (covered : s.Covered) : handled.session.Covered := by
  cases effect with
  | kept same other rejects =>
      rcases Session.subscriptions_parts same with ⟨xsubs, _, concretes, _⟩
      unfold Session.Covered Session.Subscribed
      rw [xsubs, concretes]
      exact covered
  | applied accepts done accepted =>
      rw [done]
      rcases accepts with ⟨op, rest, field, accepts⟩
      cases accepts with
      | init => exact covered
      | xsub ready fields valid =>
          intro key inside
          rcases covered key inside with ⟨streamId, ⟨xsub, given, named⟩, ofStream⟩
          exact ⟨streamId, ⟨xsub, List.mem_append_left _ given, named⟩, ofStream⟩
      | sub ready fields validId validTopic validGroup unused =>
          simp only [Operation.apply, dif_pos unused]
          exact covered
      | unsub => exact covered
      | xunsub ready fields valid =>
          rename_i gone
          intro key inside
          rcases List.mem_map.mp inside with ⟨entry, kept, isKey⟩
          rcases Table.mem_eraseIf.mp kept with ⟨old, other⟩
          rw [isKey] at other
          rcases covered key (List.mem_map.mpr ⟨entry, old, isKey⟩) with
            ⟨streamId, ⟨xsub, given, named⟩, ofStream⟩
          refine ⟨streamId, ⟨xsub, List.mem_filter.mpr ⟨given, ?_⟩, named⟩, ofStream⟩
          rw [decide_eq_true_eq]
          intro same
          rw [← named, same, other] at ofStream
          cases ofStream

theorem covered_generated {sample : Sample} {xsub : XSub} {rest : List XSub} (told : Told m)
    (looping : m.monitor = .wildcard sample (xsub :: rest))
    (absent : m.session.concreteSubs.find (sample.concrete xsub.streamId).key = none)
    (covered : m.session.Covered) :
    Session.Covered { m.session with
      concreteSubs := m.session.concreteSubs.add (sample.concrete xsub.streamId).key
        (generatedId m.session.nextSubId) absent
      nextSubId := m.session.nextSubId + 1 } ↔ m.session.Subscribed xsub.streamId := by
  have valid : validToken xsub.streamId = true := by
    apply told.copied xsub
    rw [looping]
    exact List.mem_cons_self
  have named := sample.concrete_named valid
  constructor
  · intro all
    rcases all _ List.mem_cons_self with ⟨streamId, ⟨other, inside, isStream⟩, ofStream⟩
    have free : newline ∉ streamId := by
      rw [← isStream]
      exact validToken_newline (told.streams other inside)
    rw [(keyOfStream_iff free named).mp ofStream] at isStream
    exact ⟨other, inside, isStream⟩
  · intro given key inside
    rcases List.mem_cons.mp inside with new | old
    · refine ⟨xsub.streamId, given, ?_⟩
      rw [new]
      exact (keyOfStream_iff (validToken_newline valid) named).mpr rfl
    · exact covered key old

/-- A step leaves a stream's concrete subscription behind exactly when it makes one for a
stream that is gone. -/
theorem covered_step {label : Label} (told : Told m) (covered : m.session.Covered)
    (moved : Moved parse port m label next) :
    next.session.Covered ↔ AllocatesSubscribed m label := by
  have other : (∀ sample xsub rest, m.monitor ≠ .wildcard sample (xsub :: rest)) →
      AllocatesSubscribed m .monitor := by
    intro notLooping streamId allocates
    unfold Machine.allocates at allocates
    split at allocates
    · next sample xsub rest looping => exact absurd looping (notLooping sample xsub rest)
    · cases allocates
  cases moved with
  | line reading isOpen done =>
      rename_i payload handled
      have effect := handleLine_effect parse port m.session payload
      rw [done] at effect
      exact iff_of_true (effect.covered covered) trivial
  | post => exact iff_of_true covered trivial
  | returned => exact iff_of_true covered trivial
  | disconnect => exact iff_of_true covered trivial
  | arrive => exact iff_of_true covered trivial
  | snapshot => exact iff_of_true covered trivial
  | standardHit looping => exact iff_of_true covered (other (by simp [looping]))
  | standardMiss looping => exact iff_of_true covered (other (by simp [looping]))
  | standardEnd looping => exact iff_of_true covered (other (by simp [looping]))
  | known looping hit found =>
      refine iff_of_true covered ?_
      intro streamId allocates
      simp [Machine.allocates, looping, found] at allocates
  | generated looping hit absent =>
      rename_i sample xsub rest
      have allocates : m.allocates = some xsub.streamId := by
        simp [Machine.allocates, looping, hit, absent]
      rw [covered_generated told looping absent covered]
      constructor
      · intro given streamId same
        rw [allocates] at same
        injection same with same
        rw [← same]
        exact given
      · intro met
        exact met _ allocates
  | miss looping no =>
      refine iff_of_true covered ?_
      intro streamId allocates
      simp [Machine.allocates, looping, no] at allocates
  | wildcardEnd looping => exact iff_of_true covered (other (by simp [looping]))
  | announce owed => exact iff_of_true covered (other (by simp [owed]))
  | message owed => exact iff_of_true covered (other (by simp [owed]))

theorem watch_append (streamId : Bytes) (events : List Event) (event : Event) :
    watch streamId (events ++ [event]) = (watch streamId events).see streamId event := by
  rw [watch, List.foldl_append]
  rfl

theorem Silent.snoc {events : List Event} {event : Event} (silent : Silent events)
    (last : ∀ concrete subId, event = .post .monitor (.xsubInfo concrete subId) →
      gone concrete.streamId events = false) : Silent (events ++ [event]) := by
  intro before concrete subId here
  rcases List.prefix_concat_iff.mp here with whole | earlier
  · rcases List.append_inj' whole rfl with ⟨same, isEvent⟩
    rw [same]
    exact last concrete subId (List.cons.inj isEvent).1.symm
  · exact silent before concrete subId earlier

theorem sendLine_cases (m : Machine) (thread : Thread) (line : Line) :
    (m.sendLine thread line).events = m.events ∨
      (m.sendLine thread line).events = m.events ++ [.post thread line] := by
  cases isOpen : m.session.isOpen with
  | true => exact .inr (sendLine_open isOpen thread line)
  | false => exact .inl (sendLine_closed isOpen thread line)

/-- A stream that is gone is not asked for, and nothing is about to be announced for it. -/
structure Hushed (m : Machine) : Prop where
  gone : ∀ streamId, gone streamId m.events = true → ¬ m.session.Subscribed streamId ∧
    ∀ concrete subId, m.monitor.announcing = some (concrete, subId) → concrete.streamId ≠ streamId
  removing : ∀ payload streamId, m.io.Applied payload → unsubscribes streamId payload = true →
    ¬ m.session.Subscribed streamId
  handling : ∀ streamId payload, (watch streamId m.events).handling = some payload →
    m.io.Applied payload
  silent : Silent m.events

structure Event.Idle (event : Event) : Prop where
  keeps : ∀ streamId seen, Watch.see streamId seen event = seen
  quiet : ∀ concrete subId, event ≠ .post .monitor (.xsubInfo concrete subId)

theorem idle_post {line : Line} (other : ∀ concrete subId, line ≠ .xsubInfo concrete subId) :
    (Event.post .monitor line).Idle where
  keeps := fun _ _ => rfl
  quiet := by
    intro concrete subId same
    injection same with _ same
    exact other concrete subId same

theorem Hushed.keep (hushed : Hushed m) (xsubs : next.session.xsubs = m.session.xsubs)
    (io : ∀ payload, next.io.Applied payload ↔ m.io.Applied payload)
    (announcing : ∀ named, next.monitor.announcing = some named →
      m.monitor.announcing = some named)
    (events : next.events = m.events ∨
      ∃ event : Event, event.Idle ∧ next.events = m.events ++ [event]) : Hushed next := by
  have same : ∀ streamId, watch streamId next.events = watch streamId m.events := by
    intro streamId
    rcases events with none' | ⟨event, idle, more⟩
    · rw [none']
    · rw [more, watch_append, idle.keeps]
  have subscribed : ∀ streamId, next.session.Subscribed streamId →
      m.session.Subscribed streamId := by
    intro streamId given
    unfold Session.Subscribed at given
    rw [xsubs] at given
    exact given
  constructor
  · intro streamId isGone
    rw [Lacal.gone, same] at isGone
    have before := hushed.gone streamId isGone
    refine ⟨fun given => before.1 (subscribed streamId given), ?_⟩
    intro concrete subId owes
    exact before.2 concrete subId (announcing _ owes)
  · intro payload streamId applied removes given
    exact hushed.removing payload streamId ((io payload).mp applied) removes
      (subscribed streamId given)
  · intro streamId payload handles
    rw [same] at handles
    exact (io payload).mpr (hushed.handling streamId payload handles)
  · rcases events with none' | ⟨event, idle, more⟩
    · rw [none']
      exact hushed.silent
    · rw [more]
      apply hushed.silent.snoc
      intro concrete subId isAnnouncement
      exact absurd isAnnouncement (idle.quiet concrete subId)

theorem Hushed.loop (hushed : Hushed m) (xsubs : next.session.xsubs = m.session.xsubs)
    (io : next.io = m.io) (after : next.monitor.announcing = none)
    (events : next.events = m.events) : Hushed next := by
  apply hushed.keep xsubs
  · intro payload
    rw [io]
  · intro named owes
    rw [after] at owes
    cases owes
  · exact .inl events

theorem Hushed.message {line : Line} {monitor : MonitorPc} (hushed : Hushed m)
    (after : monitor.announcing = none) (other : ∀ concrete subId, line ≠ .xsubInfo concrete subId) :
    Hushed { m.sendLine .monitor line with monitor } := by
  refine hushed.keep rfl ?_ ?_ ?_
  · exact fun payload => Iff.rfl
  · intro named owes
    rw [after] at owes
    cases owes
  · rcases sendLine_cases m .monitor line with none' | one
    · exact .inl none'
    · exact .inr ⟨_, idle_post other, one⟩

theorem Hushed.line {payload : Bytes} {handled : Handled} (hushed : Hushed m)
    (reading : m.io = .reading) (effect : Effect parse m.session payload handled) : Hushed { m with
      session := handled.session
      io := .replying payload handled.accepted handled.lines handled.closes
      events := m.events ++ if handled.accepted then [.handled payload] else [] } := by
  have seen : ∀ streamId, watch streamId
      (m.events ++ if handled.accepted then [.handled payload] else []) =
        if handled.accepted then
          ⟨some payload, Lacal.gone streamId m.events && !subscribes streamId payload⟩
        else watch streamId m.events := by
    intro streamId
    cases handled.accepted with
    | true => simp only [if_true, watch_append, Watch.see, Lacal.gone]
    | false => simp only [Bool.false_eq_true, if_false, List.append_nil]
  constructor
  · intro streamId isGone
    simp only [Lacal.gone, seen] at isGone
    have still : Lacal.gone streamId m.events = true ∧
        ¬ (handled.accepted = true ∧ subscribes streamId payload = true) := by
      cases accepted : handled.accepted with
      | true => simpa [accepted, Lacal.gone] using isGone
      | false => simpa [accepted, Lacal.gone] using isGone
    have before := hushed.gone streamId still.1
    refine ⟨?_, before.2⟩
    intro given
    rcases effect.subscribed given with old | asked
    · exact before.1 old
    · exact still.2 asked
  · intro other streamId applied removes
    rcases applied with ⟨lines, closes, replying⟩
    injection replying with same accepted _ _
    rw [← same] at removes
    exact effect.unsubscribed accepted removes
  · intro streamId other handles
    simp only [seen] at handles
    cases accepted : handled.accepted with
    | true =>
        simp only [accepted, if_true, Option.some.injEq] at handles
        exact ⟨_, _, by rw [handles]⟩
    | false =>
        simp only [accepted, Bool.false_eq_true, if_false] at handles
        rcases hushed.handling streamId other handles with ⟨_, _, replying⟩
        rw [reading] at replying
        cases replying
  · cases handled.accepted with
    | true =>
        apply hushed.silent.snoc
        intro concrete subId same
        cases same
    | false =>
        simp only [Bool.false_eq_true, if_false, List.append_nil]
        exact hushed.silent

theorem Hushed.post {payload : Bytes} {accepted : Bool} {line : Line} {rest : List Line}
    {closes : Bool} (hushed : Hushed m)
    (replying : m.io = .replying payload accepted (line :: rest) closes)
    (met : RepliesAnnounced m .reply) :
    Hushed { m.sendLine .io line with io := .replying payload accepted rest closes } := by
  have io : ∀ other, IoPc.Applied (.replying payload accepted rest closes) other ↔
      m.io.Applied other := by
    intro other
    rw [replying]
    constructor
    · rintro ⟨lines, closes', same⟩
      injection same with samePayload isAccepted _ sameCloses
      exact ⟨_, _, by rw [samePayload, isAccepted]⟩
    · rintro ⟨lines, closes', same⟩
      injection same with samePayload isAccepted _ sameCloses
      exact ⟨_, _, by rw [samePayload, isAccepted]⟩
  rcases sendLine_cases m .io line with none' | one
  · exact hushed.keep rfl io (fun _ owes => owes) (.inl none')
  · constructor
    · intro streamId isGone
      simp only [Lacal.gone, one, watch_append, Watch.see, Bool.or_eq_true, Option.any_eq_true]
        at isGone
      rcases isGone with before | ⟨other, handles, removes⟩
      · exact hushed.gone streamId before
      · have applied := hushed.handling streamId other handles
        exact ⟨hushed.removing other streamId applied removes,
          met other streamId applied removes⟩
    · intro other streamId applied
      exact hushed.removing other streamId ((io other).mp applied)
    · intro streamId other handles
      simp only [one, watch_append, Watch.see] at handles
      exact (io other).mpr (hushed.handling streamId other handles)
    · rw [one]
      apply hushed.silent.snoc
      intro concrete subId same
      injection same with poster _
      cases poster

theorem Hushed.returned {payload : Bytes} {accepted closes : Bool} (hushed : Hushed m)
    (replying : m.io = .replying payload accepted [] closes)
    (met : RepliesAnnounced m .reply) : Hushed { m with
      session := { m.session with isOpen := m.session.isOpen && !closes }
      io := .reading
      events := m.events ++ if accepted then [.returned payload] else [] } := by
  have idle : ∀ other, ¬ IoPc.Applied .reading other := by
    rintro other ⟨lines, closes', reading⟩
    cases reading
  cases accepted with
  | false =>
      refine hushed.keep rfl ?_ ?_ ?_
      · intro other
        refine iff_of_false (idle other) ?_
        rintro ⟨lines, closes', applied⟩
        rw [replying] at applied
        injection applied with _ isAccepted _ _
        cases isAccepted
      · exact fun _ owes => owes
      · exact .inl (List.append_nil _)
  | true =>
      have applied : m.io.Applied payload := ⟨[], closes, replying⟩
      constructor
      · intro streamId isGone
        simp only [if_true, Lacal.gone, watch_append, Watch.see, Bool.or_eq_true] at isGone
        rcases isGone with before | removes
        · exact hushed.gone streamId before
        · exact ⟨hushed.removing payload streamId applied removes,
            met payload streamId applied removes⟩
      · intro other streamId reading
        exact absurd reading (idle other)
      · intro streamId other handles
        simp only [if_true, watch_append, Watch.see] at handles
        cases handles
      · apply hushed.silent.snoc
        intro concrete subId same
        cases same

theorem Hushed.step {label : Label} (hushed : Hushed m) (allocates : AllocatesSubscribed m label)
    (replies : RepliesAnnounced m label) (moved : Moved parse port m label next) :
    Hushed next := by
  cases moved with
  | line reading isOpen done =>
      rename_i payload handled
      have effect := handleLine_effect parse port m.session payload
      rw [done] at effect
      exact hushed.line reading effect
  | post replying => exact hushed.post replying replies
  | returned replying => exact hushed.returned replying replies
  | disconnect =>
      exact hushed.keep rfl (fun _ => Iff.rfl) (fun _ owes => owes) (.inl rfl)
  | arrive => exact hushed.loop rfl rfl rfl rfl
  | snapshot => exact hushed.loop rfl rfl rfl rfl
  | standardHit => exact hushed.message rfl (fun _ _ same => by cases same)
  | standardMiss => exact hushed.loop rfl rfl rfl rfl
  | standardEnd => exact hushed.loop rfl rfl rfl rfl
  | known => exact hushed.loop rfl rfl rfl rfl
  | generated looping hit absent =>
      rename_i sample xsub rest
      have given : m.session.Subscribed xsub.streamId := by
        apply allocates
        simp [Machine.allocates, looping, hit, absent]
      constructor
      · intro streamId isGone
        rw [Lacal.gone, watch_append] at isGone
        have before := (hushed.gone streamId isGone).1
        refine ⟨before, ?_⟩
        intro concrete subId owes same
        injection owes with owes
        injection owes with isConcrete _
        rw [← isConcrete] at same
        rw [← same] at before
        exact before given
      · exact hushed.removing
      · intro streamId payload handles
        rw [watch_append] at handles
        exact hushed.handling streamId payload handles
      · apply hushed.silent.snoc
        intro concrete subId same
        cases same
  | miss => exact hushed.loop rfl rfl rfl rfl
  | wildcardEnd => exact hushed.loop rfl rfl rfl rfl
  | announce owed =>
      rename_i sample streamId subId rest
      have announced : ∀ concrete subId', m.monitor.announcing = some (concrete, subId') →
          Lacal.gone concrete.streamId m.events = false := by
        intro concrete subId' owes
        cases isGone : Lacal.gone concrete.streamId m.events with
        | false => rfl
        | true => exact absurd rfl ((hushed.gone _ isGone).2 concrete subId' owes)
      have owes : m.monitor.announcing = some (sample.concrete streamId, subId) := by
        rw [owed]
        rfl
      rcases sendLine_cases m .monitor (.xsubInfo (sample.concrete streamId) subId) with none' | one
      · exact hushed.loop rfl rfl rfl none'
      · constructor
        · intro other isGone
          simp only [one, Lacal.gone, watch_append] at isGone
          refine ⟨(hushed.gone other isGone).1, ?_⟩
          intro concrete subId' owes'
          cases owes'
        · exact hushed.removing
        · intro other payload handles
          simp only [one, watch_append] at handles
          exact hushed.handling other payload handles
        · rw [one]
          apply hushed.silent.snoc
          intro concrete subId' same
          injection same with _ same
          injection same with isConcrete _
          rw [← isConcrete]
          exact announced _ _ owes
  | message => exact hushed.message rfl (fun _ _ same => by cases same)

end Steps

section Runs

variable {parse : Bytes → Except Exc Value} {port : UInt16}

theorem hushed_initial : Hushed {} where
  gone := nofun
  removing := by
    rintro payload streamId ⟨lines, closes, reading⟩
    cases reading
  handling := nofun
  silent := by
    intro before concrete subId here
    have short := here.length_le
    simp at short

/-- The concrete subscriptions belong to streams that are asked for, in every state of a run,
exactly when the monitor makes them only for such streams; and if no `XUNSUB` is answered
between the making and the announcement either, nothing is announced from the reply on. -/
theorem xunsub_removes {labels : List Label} {last : Machine}
    (reached : run (step parse port) {} labels = some last) :
    (Throughout (step parse port) (fun m => m.session.Covered) {} labels ↔
        Along (step parse port) AllocatesSubscribed {} labels) ∧
      (Along (step parse port) (fun m label => AllocatesSubscribed m label ∧
          RepliesAnnounced m label) {} labels → Silent last.events) := by
  constructor
  · apply throughout_iff_along _ _ traced_initial.told _ reached
    · intro m label next told taken
      exact told.step (step_moved taken)
    · intro m label next told covered taken
      exact covered_step told covered (step_moved taken)
    · exact fun _ inside => nomatch inside
  · intro met
    have hushed : Hushed last := by
      apply run_keeps _ hushed_initial met reached
      intro m label next kept here taken
      exact kept.step here.1 here.2 (step_moved taken)
    exact hushed.silent

end Runs

section Sample

theorem xunsub_removes_track : ∃ labels last,
    run (step sampleParse 8766) {} labels = some last ∧
      .post .monitor (.xsubInfo (trackSample.concrete (utf8 "bus")) (utf8 "xsub.1")) ∈ last.events ∧
      (Throughout (step sampleParse 8766) (fun m => m.session.Covered) {} labels ↔
        Along (step sampleParse 8766) AllocatesSubscribed {} labels) ∧
      (Along (step sampleParse 8766) (fun m label => AllocatesSubscribed m label ∧
          RepliesAnnounced m label) {} labels → Silent last.events) := by
  rcases run_track with ⟨labels, last, reached, announced, _⟩
  exact ⟨labels, last, reached, announced, xunsub_removes reached⟩

theorem allTopics_line : unsubscribes (utf8 "bus") (unsubscribeLine (utf8 "bus")) = true := by
  decide +kernel

/-- An `XUNSUB` that is handled and answered after the monitor has copied the `XSUB`s: the
stream is announced behind the reply, and its concrete subscription stays. -/
theorem xunsub_overtaken : ∃ labels last,
    run (step sampleParse 8766) {} labels = some last ∧ ¬ last.session.Covered ∧
      ¬ Silent last.events := by
  have known : utf8 "bus" ∈ twoStreams := by decide
  rcases twoStreams_fields (utf8 "bus") known with ⟨_, _, unsubscribes, stream, valid⟩
  rcases run_commands sampleParse 8766 (m := {}) rfl [greetingLine, subscribeLine (utf8 "bus")] with
    ⟨start, first, session, reading, idle, _, _⟩
  have standing := greeted.subscribe sampleParse 8766 known
  rw [← after_append, List.singleton_append] at standing
  change start.session = after sampleParse 8766 {} _ at session
  rw [← session] at standing
  have arrives : step sampleParse 8766 start (.arrive trackSample) =
      some { start with monitor := .visit trackSample } := by
    simp only [step, idle, standing.isOpen, if_true]
  have copies : step sampleParse 8766 { start with monitor := .visit trackSample } (.snapshot []) =
      some { start with monitor := .standard trackSample [] [allTopics (utf8 "bus")] } := by
    simp [step, Table.values, standing.standardSubs, standing.xsubs]
  have enters : step sampleParse 8766
      { start with monitor := .standard trackSample [] [allTopics (utf8 "bus")] } .monitor =
        some { start with monitor := .wildcard trackSample [allTopics (utf8 "bus")] } := rfl
  -- the XUNSUB comes here
  have removes := run_command sampleParse 8766
    (m := { start with monitor := .wildcard trackSample [allTopics (utf8 "bus")] })
    reading standing.isOpen (unsubscribeLine (utf8 "bus"))
  have accepted : (handleLine sampleParse 8766 start.session
      (unsubscribeLine (utf8 "bus"))).accepted = true := by
    rw [handleLine_xunsub 8766 standing.ready unsubscribes, handleXUnsub, stream]
    simp only [if_pos valid, confirm_accepted]
  simp only [receive_xunsub 8766 standing.isOpen standing.ready unsubscribes stream valid,
    accepted, if_true] at removes
  generalize hasEvents : _ ++ [Event.returned (unsubscribeLine (utf8 "bus"))] = events at removes
  generalize hasSession : Operation.apply start.session (.xunsub (utf8 "bus")) = left at removes
  have isGone : gone (utf8 "bus") events = true := by
    rw [← hasEvents, gone, watch_append, Watch.see, allTopics_line, Bool.or_true]
  have noStreams : left.xsubs = [] := by
    rw [← hasSession]
    simp [Operation.apply, standing.xsubs, allTopics]
  have stillOpen : left.isOpen = true := by
    rw [← hasSession]
    exact standing.isOpen
  have absent : left.concreteSubs.find (trackSample.concrete (utf8 "bus")).key = none := by
    rw [Table.find_eq_none_iff, Table.keys, ← hasSession]
    simp [Operation.apply, Table.eraseIf, standing.concreteSubs]
  have announces := run_allocation sampleParse 8766
    (m := { session := left, monitor := .wildcard trackSample [allTopics (utf8 "bus")], events })
    rfl stillOpen (trackSample_matches_all _) absent
  have whole := first.trans ((Reaches.of_step arrives).trans ((Reaches.of_step copies).trans
    ((Reaches.of_step enters).trans (removes.trans announces))))
  rcases whole with ⟨labels, reached⟩
  refine ⟨labels, _, reached, ?_, ?_⟩
  · intro covered
    rcases covered _ List.mem_cons_self with ⟨streamId, ⟨xsub, inside, _⟩, _⟩
    rw [noStreams] at inside
    cases inside
  · intro silent
    have quiet := silent _ _ _ List.prefix_rfl
    rw [gone, watch_append] at quiet
    cases isGone.symm.trans quiet

end Sample

end Arcal.Lacal
