import Arcal.Lacal.Replies

/-! What a line does to the subscriptions. -/

namespace Arcal.Lacal

open JsonText (Value)

section Lines

variable {parse : Bytes → Except Exc Value}

theorem handleInit_keeps (port : UInt16) (s : Session) (rest : Bytes) :
    (handleInit parse port s rest).session.subscriptions = s.subscriptions ∧
      (handleInit parse port s rest).session.isOpen = s.isOpen := by
  fun_cases handleInit parse port s rest
  all_goals exact ⟨rfl, rfl⟩

def Line.isReply : Line → Bool
  | .err _ => true
  | .ok => true
  | .info _ => true
  | .xsubInfo .. => false
  | .msg .. => false

/-- A handler only replies, and a session is closed behind its lines. -/
structure Polite (s : Session) (handled : Handled) : Prop where
  isOpen : handled.session.isOpen = s.isOpen
  replies : handled.lines.all Line.isReply = true

theorem polite_confirm {s s' : Session} (same : s'.isOpen = s.isOpen) : Polite s s'.confirm := by
  refine ⟨same, ?_⟩
  unfold Session.confirm
  split
  · rfl
  · rfl

theorem polite_refuse (s : Session) (detail : String) : Polite s (s.refuse detail) := ⟨rfl, rfl⟩

theorem handleInit_polite (port : UInt16) (s : Session) (rest : Bytes) :
    Polite s (handleInit parse port s rest) := by
  refine ⟨(handleInit_keeps port s rest).2, ?_⟩
  have informed : ∀ (info : Bytes) (verbose : Bool),
      (Line.info info :: if verbose then [.ok] else []).all Line.isReply = true := by
    intro info verbose
    cases verbose with
    | true => rfl
    | false => rfl
  fun_cases handleInit parse port s rest
  all_goals first
    | rfl
    | exact informed _ _

theorem handleXSub_polite (s : Session) (rest : Bytes) : Polite s (handleXSub s rest) := by
  unfold handleXSub
  split
  · split
    · exact polite_confirm rfl
    · exact polite_refuse s _
  · split
    · exact polite_confirm rfl
    · exact polite_refuse s _
  · exact polite_refuse s _

theorem handleSub_polite (s : Session) (rest : Bytes) : Polite s (handleSub s rest) := by
  have added : ∀ (valid : Bool) (sub : StandardSub) (used invalid : String), Polite s
      (if valid then
        if absent : s.standardSubs.find sub.subscriptionId = none then
          { s with
            standardSubs := s.standardSubs.add sub.subscriptionId sub absent }.confirm
        else s.refuse used
      else s.refuse invalid) := by
    intro valid sub used invalid
    split
    · split
      · exact polite_confirm rfl
      · exact polite_refuse s _
    · exact polite_refuse s _
  unfold handleSub
  split
  · next subscriptionId messageName topic fields =>
    exact added _ ⟨subscriptionId, messageName, topic⟩ _ _
  · next subscriptionId messageName topic group fields =>
    exact added _ ⟨subscriptionId, messageName, topic⟩ _ _
  · exact polite_refuse s _

theorem handleUnsub_polite (s : Session) (rest : Bytes) : Polite s (handleUnsub s rest) := by
  unfold handleUnsub
  split
  · split
    · split
      · exact polite_refuse s _
      · exact polite_confirm rfl
    · exact polite_refuse s _
  · exact polite_refuse s _

theorem handleXUnsub_polite (s : Session) (rest : Bytes) : Polite s (handleXUnsub s rest) := by
  unfold handleXUnsub
  split
  · split
    · exact polite_confirm rfl
    · exact polite_refuse s _
  · exact polite_refuse s _

theorem handleLine_polite (parse : Bytes → Except Exc Value) (port : UInt16) (s : Session)
    (payload : Bytes) :
    Polite s (handleLine parse port s payload) := by
  unfold handleLine
  split
  · exact ⟨rfl, rfl⟩
  · next op rest field =>
    split
    · exact handleInit_polite port s rest
    · split
      · exact ⟨rfl, rfl⟩
      · split
        · exact handleXSub_polite s rest
        · split
          · exact handleXUnsub_polite s rest
          · split
            · exact handleSub_polite s rest
            · split
              · exact handleUnsub_polite s rest
              · split
                · exact polite_refuse s _
                · exact polite_refuse s _

def Line.isErr : Line → Bool
  | .err _ => true
  | _ => false

def Handled.accepted (handled : Handled) : Bool := handled.lines.all fun line => !line.isErr

/-- What a line may do to the subscriptions: nothing, or what its operation says. -/
inductive Effect (parse : Bytes → Except Exc Value) (s : Session) (payload : Bytes)
    (handled : Handled) : Prop
  | kept (same : handled.session.subscriptions = s.subscriptions)
      (other : handled.accepted = true →
        ∀ op rest, firstField payload = some (op, rest) → op = utf8 "INIT")
      (rejects : ∀ sub, ¬ AcceptsLine parse s payload (.sub sub))
  | applied {operation : Operation} (accepts : AcceptsLine parse s payload operation)
      (done : handled.session = operation.apply s) (accepted : handled.accepted = true)

theorem accepted_confirmed {s : Session} {operation : Operation} {lines : List Line}
    (confirmed : Confirmed s lines operation) (session : Session) (closes : Bool) :
    (Handled.mk session lines closes).accepted = true := by
  have quiet : ∀ verbose : Bool,
      (if verbose then [Line.ok] else []).all (fun line => !line.isErr) = true := by
    decide
  cases operation with
  | init verbose serviceId =>
      rcases confirmed with ⟨json, same⟩
      rw [Handled.accepted, same, List.all_cons, quiet]
      rfl
  | xsub added =>
      rw [Handled.accepted, show lines = _ from confirmed]
      exact quiet s.verbose
  | sub added =>
      rw [Handled.accepted, show lines = _ from confirmed]
      exact quiet s.verbose
  | unsub subscriptionId =>
      rw [Handled.accepted, show lines = _ from confirmed]
      exact quiet s.verbose
  | xunsub streamId =>
      rw [Handled.accepted, show lines = _ from confirmed]
      exact quiet s.verbose

theorem handleLine_effect (parse : Bytes → Except Exc Value) (port : UInt16) (s : Session)
    (payload : Bytes) :
    Effect parse s payload (handleLine parse port s payload) := by
  cases field : firstField payload with
  | none =>
      have blank : handleLine parse port s payload = ⟨s, [], false⟩ := by
        unfold handleLine
        rw [field]
      rw [blank]
      refine .kept rfl ?_ ?_
      · intro _ op rest same
        rw [field] at same
        cases same
      · intro sub accepts
        rcases accepts with ⟨op, rest, same, _⟩
        rw [field] at same
        cases same
  | some opRest =>
      rcases opRest with ⟨op, rest⟩
      by_cases isInit : op = utf8 "INIT"
      · rw [isInit] at field
        rw [handleLine_init port field]
        refine .kept (handleInit_keeps port s rest).1 ?_ ?_
        · intro _ op' rest' same
          rw [field] at same
          injection same with same
          exact (Prod.mk.inj same).1.symm
        · intro sub accepts
          rcases accepts with ⟨op', rest', same, accepts⟩
          rw [field] at same
          injection same with same
          rw [← (Prod.mk.inj same).1] at accepts
          cases accepts
      · have answered : Answered parse s op rest (handleLine parse port s payload) :=
          handleLine_answered_other port field isInit
        generalize handleLine parse port s payload = handled at answered
        cases answered with
        | accepted accepts confirmed =>
            exact .applied ⟨op, rest, field, accepts⟩ rfl (accepted_confirmed confirmed _ _)
        | refused rejects same closing =>
            apply Effect.kept
            · simp only [Session.subscriptions, same.xsubs, same.standardSubs, same.concreteSubs,
                same.nextSubId]
            · intro accepted
              cases accepted
            · intro sub accepts
              rcases accepts with ⟨op', rest', same', accepts⟩
              rw [field] at same'
              injection same' with same'
              rw [← (Prod.mk.inj same').1, ← (Prod.mk.inj same').2] at accepts
              exact rejects _ accepts

theorem Session.subscriptions_parts {left right : Session}
    (same : left.subscriptions = right.subscriptions) :
    left.xsubs = right.xsubs ∧ left.standardSubs = right.standardSubs ∧
      left.concreteSubs = right.concreteSubs ∧ left.nextSubId = right.nextSubId := by
  injection same with first same
  injection same with second same
  injection same with third fourth
  exact ⟨first, second, third, fourth⟩

theorem Effect.streams {s : Session} {payload : Bytes} {handled : Handled}
    (effect : Effect parse s payload handled) (xsub : XSub)
    (inside : xsub ∈ handled.session.xsubs) :
    xsub ∈ s.xsubs ∨ validToken xsub.streamId = true := by
  cases effect with
  | kept same other rejects =>
      rw [(Session.subscriptions_parts same).1] at inside
      exact .inl inside
  | applied accepts done accepted =>
      rw [done] at inside
      rcases accepts with ⟨op, rest, _, accepts⟩
      cases accepts with
      | init => exact .inl inside
      | xsub ready fields valid =>
          rcases List.mem_append.mp inside with old | new
          · exact .inl old
          · rw [List.mem_singleton.mp new]
            exact .inr valid
      | sub ready fields validId validTopic validGroup unused =>
          simp only [Operation.apply, dif_pos unused] at inside
          exact .inl inside
      | unsub => exact .inl inside
      | xunsub => exact .inl (List.mem_of_mem_filter inside)

theorem Effect.concreteSubs {s : Session} {payload : Bytes} {handled : Handled}
    (effect : Effect parse s payload handled) :
    handled.session.concreteSubs.entries.Sublist s.concreteSubs.entries ∧
      handled.session.nextSubId = s.nextSubId := by
  cases effect with
  | kept same other rejects =>
      rcases Session.subscriptions_parts same with ⟨_, _, concretes, counter⟩
      rw [concretes, counter]
      exact ⟨List.Sublist.refl _, rfl⟩
  | applied accepts done accepted =>
      rw [done]
      rcases accepts with ⟨op, rest, _, accepts⟩
      cases accepts with
      | init => exact ⟨List.Sublist.refl _, rfl⟩
      | xsub => exact ⟨List.Sublist.refl _, rfl⟩
      | sub ready fields validId validTopic validGroup unused =>
          simp only [Operation.apply, dif_pos unused]
          exact ⟨List.Sublist.refl _, trivial⟩
      | unsub => exact ⟨List.Sublist.refl _, rfl⟩
      | xunsub => exact ⟨List.filter_sublist, rfl⟩

def unsubscribes (streamId payload : Bytes) : Bool :=
  match firstField payload with
  | some (op, rest) => op == utf8 "XUNSUB" && splitFields rest == [streamId]
  | none => false

def subscribes (streamId payload : Bytes) : Bool :=
  match firstField payload with
  | some (op, rest) => op == utf8 "XSUB" && (splitFields rest).head? == some streamId
  | none => false

def Session.Subscribed (s : Session) (streamId : Bytes) : Prop :=
  ∃ xsub ∈ s.xsubs, xsub.streamId = streamId

theorem Effect.subscribed {s : Session} {payload streamId : Bytes} {handled : Handled}
    (effect : Effect parse s payload handled) (given : handled.session.Subscribed streamId) :
    s.Subscribed streamId ∨ handled.accepted = true ∧ subscribes streamId payload = true := by
  rcases given with ⟨xsub, inside, named⟩
  cases effect with
  | kept same other rejects =>
      rw [(Session.subscriptions_parts same).1] at inside
      exact .inl ⟨xsub, inside, named⟩
  | applied accepts done accepted =>
      rw [done] at inside
      rcases accepts with ⟨op, rest, field, accepts⟩
      cases accepts with
      | init => exact .inl ⟨xsub, inside, named⟩
      | xsub ready fields valid =>
          rcases List.mem_append.mp inside with old | new
          · exact .inl ⟨xsub, old, named⟩
          · rw [List.mem_singleton.mp new] at named
            right
            refine ⟨accepted, ?_⟩
            unfold subscribes
            rw [field]
            rcases fields with ⟨two, _⟩ | three
            · simp [two, named]
            · simp [three, named]
      | sub ready fields validId validTopic validGroup unused =>
          simp only [Operation.apply, dif_pos unused] at inside
          exact .inl ⟨xsub, inside, named⟩
      | unsub => exact .inl ⟨xsub, inside, named⟩
      | xunsub => exact .inl ⟨xsub, List.mem_of_mem_filter inside, named⟩

theorem Effect.unsubscribed {s : Session} {payload streamId : Bytes} {handled : Handled}
    (effect : Effect parse s payload handled) (accepted : handled.accepted = true)
    (removes : unsubscribes streamId payload = true) : ¬ handled.session.Subscribed streamId := by
  unfold unsubscribes at removes
  cases field : firstField payload with
  | none =>
      rw [field] at removes
      cases removes
  | some opRest =>
      rcases opRest with ⟨op, rest⟩
      rw [field] at removes
      simp only [Bool.and_eq_true, beq_iff_eq] at removes
      rcases removes with ⟨isXUnsub, fields⟩
      cases effect with
      | kept same other rejects =>
          have isInit := other accepted op rest field
          rw [isXUnsub] at isInit
          exact absurd isInit (by decide)
      | applied accepts done =>
          rcases accepts with ⟨op', rest', field', accepts⟩
          rw [field] at field'
          injection field' with same
          injection same with sameOp sameRest
          rw [← sameOp, ← sameRest, isXUnsub] at accepts
          rcases accepts.of_xunsub with ⟨other, otherFields, _, isOperation⟩
          rw [fields] at otherFields
          injection otherFields with sameStream _
          rw [done, isOperation, ← sameStream]
          intro given
          rcases given with ⟨xsub, inside, named⟩
          have different := of_decide_eq_true (List.mem_filter.mp inside).2
          exact different named

theorem confirm_accepted (s : Session) : s.confirm.accepted = true := by
  unfold Session.confirm Handled.accepted
  cases s.verbose with
  | true => rfl
  | false => rfl

theorem handleLine_xsub (port : UInt16) {s : Session} (ready : s.initialized = true)
    {line rest : Bytes} (field : firstField line = some (utf8 "XSUB", rest)) :
    handleLine parse port s line = handleXSub s rest := by
  have notInit : utf8 "XSUB" ≠ utf8 "INIT" := by decide
  unfold handleLine
  rw [field]
  simp only [if_neg notInit, ready, Bool.true_eq_false, if_false, if_true]

theorem handleLine_xunsub (port : UInt16) {s : Session} (ready : s.initialized = true)
    {line rest : Bytes} (field : firstField line = some (utf8 "XUNSUB", rest)) :
    handleLine parse port s line = handleXUnsub s rest := by
  have notInit : utf8 "XUNSUB" ≠ utf8 "INIT" := by decide
  have notXSub : utf8 "XUNSUB" ≠ utf8 "XSUB" := by decide
  unfold handleLine
  rw [field]
  simp only [if_neg notInit, if_neg notXSub, ready, Bool.true_eq_false, if_false, if_true]

theorem receive_xsub (port : UInt16) {s : Session} (isOpen : s.isOpen = true)
    (ready : s.initialized = true) {line rest streamId topicPattern : Bytes}
    (field : firstField line = some (utf8 "XSUB", rest))
    (fields : splitFields rest = [streamId, topicPattern]) (valid : validToken streamId = true) :
    (receive parse port s line).1 = (Operation.xsub { streamId, topicPattern }).apply s := by
  rw [receive, if_pos isOpen, handleLine_xsub port ready field, handleXSub, fields]
  simp only [if_pos valid, Session.confirm, Bool.not_false]
  exact Session.setOpen (s := (Operation.xsub { streamId, topicPattern }).apply s) isOpen

theorem receive_xunsub (port : UInt16) {s : Session} (isOpen : s.isOpen = true)
    (ready : s.initialized = true) {line rest streamId : Bytes}
    (field : firstField line = some (utf8 "XUNSUB", rest))
    (fields : splitFields rest = [streamId]) (valid : validToken streamId = true) :
    (receive parse port s line).1 = (Operation.xunsub streamId).apply s := by
  rw [receive, if_pos isOpen, handleLine_xunsub port ready field, handleXUnsub, fields]
  simp only [if_pos valid, Session.confirm, Bool.not_false]
  exact Session.setOpen (s := (Operation.xunsub streamId).apply s) isOpen

end Lines

end Arcal.Lacal
