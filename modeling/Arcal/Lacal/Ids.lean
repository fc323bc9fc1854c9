import Arcal.Lacal.Announce

/-! Two sources of subscription ids: the client's `SUB` and the server's counter. Each looks
only into its own table. -/

namespace Arcal.Lacal

open JsonText (Value)
open Transition

def Session.ids (s : Session) : List Bytes := s.standardSubs.keys ++ s.concreteSubs.values

def Session.Unambiguous (s : Session) : Prop := s.ids.Nodup

/-- A new subscription gets an id that no active one has: a `SUB` none of the server's, the
server none at all. -/
def TakesFreshId (parse : Bytes → Except Exc Value) (m : Machine) : Label → Prop
  | .line payload => ∀ sub, AcceptsLine parse m.session payload (.sub sub) →
      sub.subscriptionId ∉ m.session.concreteSubs.values
  | .monitor => m.allocates ≠ none → generatedId m.session.nextSubId ∉ m.session.ids
  | _ => True

section Steps

variable {parse : Bytes → Except Exc Value} {port : UInt16} {m next : Machine}

theorem AcceptsLine.sub_unique {s : Session} {payload : Bytes} {sub : StandardSub}
    {operation : Operation} (accepts : AcceptsLine parse s payload (.sub sub))
    (other : AcceptsLine parse s payload operation) : operation = .sub sub := by
  rcases accepts with ⟨op, rest, field, accepts⟩
  rcases other with ⟨op', rest', field', accepts'⟩
  rw [field] at field'
  injection field' with same
  injection same with sameOp sameRest
  rw [← sameOp, ← sameRest] at accepts'
  cases accepts with
  | sub ready fields validId validTopic validGroup unused =>
      rcases accepts'.of_sub with ⟨_, _, fields', _, _, _, _, isSub⟩
      rw [isSub, (fields.unique fields').1]

theorem unambiguous_sub {s : Session} {added : StandardSub} (unambiguous : s.Unambiguous)
    (unused : s.standardSubs.find added.subscriptionId = none) :
    ((Operation.sub added).apply s).Unambiguous ↔
      added.subscriptionId ∉ s.concreteSubs.values := by
  have notStandard := Table.find_eq_none_iff.mp unused
  simp only [Operation.apply, dif_pos unused, Session.Unambiguous, Session.ids, Table.add_keys,
    List.cons_append, List.nodup_cons, List.mem_append, not_or]
  constructor
  · intro given
    exact given.1.2
  · intro notConcrete
    exact ⟨⟨notStandard, notConcrete⟩, unambiguous⟩

theorem unambiguous_fewer {s s' : Session} (unambiguous : s.Unambiguous)
    (standard : s'.standardSubs.entries.Sublist s.standardSubs.entries)
    (concretes : s'.concreteSubs.entries.Sublist s.concreteSubs.entries) : s'.Unambiguous := by
  apply List.Nodup.sublist _ unambiguous
  exact (standard.map Prod.fst).append (concretes.map Prod.snd)

theorem unambiguous_line {payload : Bytes} {handled : Handled} (unambiguous : m.session.Unambiguous)
    (effect : Effect parse m.session payload handled) :
    handled.session.Unambiguous ↔ TakesFreshId parse m (.line payload) := by
  cases effect with
  | kept same other rejects =>
      rcases Session.subscriptions_parts same with ⟨_, standard, concretes, _⟩
      unfold Session.Unambiguous Session.ids
      rw [standard, concretes]
      exact iff_of_true unambiguous fun sub accepts => absurd accepts (rejects sub)
  | applied accepts done accepted =>
      rename_i operation
      rw [done]
      -- what the line is not
      have notSub : (∀ sub, operation ≠ .sub sub) → TakesFreshId parse m (.line payload) := by
        intro different sub acceptsSub
        exact absurd (acceptsSub.sub_unique accepts) (different sub)
      cases operation with
      | init verbose serviceId => exact iff_of_true unambiguous (notSub nofun)
      | xsub added => exact iff_of_true unambiguous (notSub nofun)
      | sub added =>
          have unused : m.session.standardSubs.find added.subscriptionId = none := by
            rcases accepts with ⟨op, rest, _, accepts⟩
            cases accepts with
            | sub ready fields validId validTopic validGroup unused => exact unused
          rw [unambiguous_sub unambiguous unused]
          constructor
          · intro fresh sub acceptsSub
            injection acceptsSub.sub_unique accepts with same
            rw [← same]
            exact fresh
          · intro met
            exact met added accepts
      | unsub subscriptionId =>
          refine iff_of_true ?_ (notSub nofun)
          exact unambiguous_fewer unambiguous List.filter_sublist (List.Sublist.refl _)
      | xunsub streamId =>
          refine iff_of_true ?_ (notSub nofun)
          exact unambiguous_fewer unambiguous (List.Sublist.refl _) List.filter_sublist

theorem unambiguous_generated {concrete : Concrete} (unambiguous : m.session.Unambiguous)
    (absent : m.session.concreteSubs.find concrete.key = none) :
    Session.Unambiguous { m.session with
      concreteSubs := m.session.concreteSubs.add concrete.key (generatedId m.session.nextSubId)
        absent
      nextSubId := m.session.nextSubId + 1 } ↔ generatedId m.session.nextSubId ∉ m.session.ids := by
  simp only [Session.Unambiguous, Session.ids, Table.add_values, List.nodup_middle,
    List.nodup_cons]
  exact and_iff_left unambiguous

/-- A step makes ids ambiguous exactly when it takes one that is in use. -/
theorem unambiguous_step {label : Label} (unambiguous : m.session.Unambiguous)
    (moved : Moved parse port m label next) :
    next.session.Unambiguous ↔ TakesFreshId parse m label := by
  have notAllocating : m.allocates = none → TakesFreshId parse m .monitor := by
    intro none some
    exact absurd none some
  cases moved with
  | line reading isOpen done =>
      rename_i payload handled
      have effect := handleLine_effect parse port m.session payload
      rw [done] at effect
      exact unambiguous_line unambiguous effect
  | post => exact iff_of_true unambiguous trivial
  | returned => exact iff_of_true unambiguous trivial
  | disconnect => exact iff_of_true unambiguous trivial
  | arrive => exact iff_of_true unambiguous trivial
  | snapshot => exact iff_of_true unambiguous trivial
  | standardHit looping =>
      exact iff_of_true unambiguous (notAllocating (by simp [Machine.allocates, looping]))
  | standardMiss looping =>
      exact iff_of_true unambiguous (notAllocating (by simp [Machine.allocates, looping]))
  | standardEnd looping =>
      exact iff_of_true unambiguous (notAllocating (by simp [Machine.allocates, looping]))
  | known looping hit found =>
      exact iff_of_true unambiguous (notAllocating (by simp [Machine.allocates, looping, found]))
  | generated looping hit absent =>
      rw [unambiguous_generated unambiguous absent]
      constructor
      · exact fun fresh _ => fresh
      · intro met
        exact met (by simp [Machine.allocates, looping, hit, absent])
  | miss looping no =>
      exact iff_of_true unambiguous (notAllocating (by simp [Machine.allocates, looping, no]))
  | wildcardEnd looping =>
      exact iff_of_true unambiguous (notAllocating (by simp [Machine.allocates, looping]))
  | announce owed =>
      exact iff_of_true unambiguous (notAllocating (by simp [Machine.allocates, owed]))
  | message owed =>
      exact iff_of_true unambiguous (notAllocating (by simp [Machine.allocates, owed]))

end Steps

/-- The ids of a session are distinct in every state of a run exactly when every new
subscription takes an id that is not in use. -/
theorem ids_unambiguous_iff {parse : Bytes → Except Exc Value} {port : UInt16}
    {labels : List Label} {last : Machine} (reached : run (step parse port) {} labels = some last) :
    Throughout (step parse port) (fun m => m.session.Unambiguous) {} labels ↔
      Along (step parse port) (TakesFreshId parse) {} labels := by
  have always : ∀ m label next, True → step parse port m label = some next → True :=
    fun _ _ _ _ _ => trivial
  apply throughout_iff_along always _ trivial _ reached
  · intro m label next _ unambiguous taken
    exact unambiguous_step unambiguous (step_moved taken)
  · exact List.nodup_nil

section Sample

theorem ids_unambiguous_track : ∃ labels last,
    run (step sampleParse 8766) {} labels = some last ∧
      .post .monitor (.xsubInfo (trackSample.concrete (utf8 "bus")) (utf8 "xsub.1")) ∈ last.events ∧
      (Throughout (step sampleParse 8766) (fun m => m.session.Unambiguous) {} labels ↔
        Along (step sampleParse 8766) (TakesFreshId sampleParse) {} labels) := by
  rcases run_track with ⟨labels, last, reached, announced, _⟩
  exact ⟨labels, last, reached, announced, ids_unambiguous_iff reached⟩

def lookalikeLines : List Bytes :=
  [greetingLine, utf8 "SUB xsub.1 TrackMT Track", subscribeLine (utf8 "bus")]

theorem lookalike_session : (after sampleParse 8766 {} lookalikeLines).isOpen = true ∧
    (after sampleParse 8766 {} lookalikeLines).xsubs = [allTopics (utf8 "bus")] ∧
    (after sampleParse 8766 {} lookalikeLines).standardSubs.keys = [utf8 "xsub.1"] ∧
    (after sampleParse 8766 {} lookalikeLines).concreteSubs.keys = [] ∧
    (after sampleParse 8766 {} lookalikeLines).nextSubId = 1 := by
  decide +kernel

/-- The server gives the same id to a stream. -/
theorem id_taken_twice : ∃ labels last, run (step sampleParse 8766) {} labels = some last ∧
    ¬ last.session.Unambiguous := by
  rcases lookalike_session with ⟨isOpen, xsubs, standard, concretes, counter⟩
  rcases run_commands sampleParse 8766 (m := {}) rfl lookalikeLines with
    ⟨start, first, session, _, idle, _, _⟩
  rw [← session] at isOpen xsubs standard concretes counter
  rcases run_deliver sampleParse 8766 idle isOpen trackSample with ⟨last, second, delivered⟩
  have absent : start.session.concreteSubs.find
      (trackSample.concrete (allTopics (utf8 "bus")).streamId).key = none := by
    rw [Table.find_eq_none_iff, concretes]
    exact List.not_mem_nil
  have loop := congrArg (deliverXSubs trackSample start.session) xsubs
  have left := delivered.session
  rw [deliverTo, loop, deliverXSubs_new (trackSample_matches_all (utf8 "bus")) absent] at left
  rcases first.trans second with ⟨labels, reached⟩
  refine ⟨labels, last, reached, ?_⟩
  intro distinct
  simp only [left, Session.Unambiguous, Session.ids, Table.add_values, standard, counter,
    List.singleton_append] at distinct
  have apart := (List.nodup_cons.mp distinct).1
  exact apart List.mem_cons_self

end Sample

end Arcal.Lacal
