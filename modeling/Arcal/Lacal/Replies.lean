import Arcal.Lacal.Session
import Arcal.Lib.JsonRender

/-! The operations a session accepts, and what it answers: a refused line changes nothing
and is answered by one error, an accepted one does what it says. -/

namespace Arcal.Lacal

open JsonText (Value)

inductive Operation
  | init (verbose : Bool) (serviceId : Bytes)
  | xsub (xsub : XSub)
  | sub (sub : StandardSub)
  | unsub (subscriptionId : Bytes)
  | xunsub (streamId : Bytes)

def Operation.apply (s : Session) : Operation → Session
  | .init verbose serviceId => { s with verbose, serviceId, initialized := true }
  | .xsub added => { s with xsubs := s.xsubs ++ [added] }
  | .sub added =>
      if absent : s.standardSubs.find added.subscriptionId = none then
        { s with standardSubs := s.standardSubs.add added.subscriptionId added absent }
      else s
  | .unsub subscriptionId =>
      { s with standardSubs := s.standardSubs.eraseIf (· == subscriptionId) }
  | .xunsub streamId =>
      { s with
        xsubs := s.xsubs.filter fun xsub => xsub.streamId ≠ streamId
        concreteSubs := s.concreteSubs.eraseIf (keyOfStream streamId) }

/-- The fields of an operation's line, an optional last one given or left to its default. -/
def XSubFields (fields : List Bytes) (xsub : XSub) : Prop :=
  fields = [xsub.streamId, xsub.topicPattern] ∧ xsub.messagePattern = utf8 "*" ∨
    fields = [xsub.streamId, xsub.topicPattern, xsub.messagePattern]

def SubFields (fields : List Bytes) (sub : StandardSub) (group : List Bytes) : Prop :=
  fields = [sub.subscriptionId, sub.messageName, sub.topic] ++ group ∧ group.length ≤ 1

/-- The session accepts the operation with this name and these arguments. -/
inductive Accepts (parse : Bytes → Except Exc Value) (s : Session) :
    (op rest : Bytes) → Operation → Prop
  | init {rest : Bytes} {members : List (Bytes × Value)} {versions schema : Value}
      {verbose : Bool} {serviceId : Bytes} (fresh : s.initialized = false)
      (parsed : parse rest = .ok (.object members))
      (hasVersions : Json.find members (utf8 "versions") = some versions)
      (hasSchema : Json.find members (utf8 "schema") = some schema)
      (hasService : Json.find members (utf8 "service_id") = some (.string serviceId))
      (supported : supports10 (elements versions) = .ok true)
      (isVerbose : verboseOf members = .ok verbose) :
      Accepts parse s (utf8 "INIT") rest (.init verbose serviceId)
  | xsub {rest : Bytes} {xsub : XSub} (ready : s.initialized = true)
      (fields : XSubFields (splitFields rest) xsub) (valid : validToken xsub.streamId = true) :
      Accepts parse s (utf8 "XSUB") rest (.xsub xsub)
  | sub {rest : Bytes} {sub : StandardSub} {group : List Bytes} (ready : s.initialized = true)
      (fields : SubFields (splitFields rest) sub group)
      (validId : validToken sub.subscriptionId = true) (validTopic : validToken sub.topic = true)
      (validGroup : group.all validToken = true)
      (unused : s.standardSubs.find sub.subscriptionId = none) :
      Accepts parse s (utf8 "SUB") rest (.sub sub)
  | unsub {rest subscriptionId : Bytes} (ready : s.initialized = true)
      (fields : splitFields rest = [subscriptionId]) (valid : validToken subscriptionId = true)
      (active : s.standardSubs.find subscriptionId ≠ none) :
      Accepts parse s (utf8 "UNSUB") rest (.unsub subscriptionId)
  | xunsub {rest streamId : Bytes} (ready : s.initialized = true)
      (fields : splitFields rest = [streamId]) (valid : validToken streamId = true) :
      Accepts parse s (utf8 "XUNSUB") rest (.xunsub streamId)

/-- What is not told in a reply: the subscriptions, and whether `INIT` was received. -/
structure SameState (s s' : Session) : Prop where
  initialized : s'.initialized = s.initialized
  xsubs : s'.xsubs = s.xsubs
  standardSubs : s'.standardSubs = s.standardSubs
  concreteSubs : s'.concreteSubs = s.concreteSubs
  nextSubId : s'.nextSubId = s.nextSubId

theorem SameState.refl (s : Session) : SameState s s := ⟨rfl, rfl, rfl, rfl, rfl⟩

def Confirmed (s : Session) (lines : List Line) : Operation → Prop
  | .init _ _ => ∃ json, lines = .info json :: if s.verbose then [.ok] else []
  | _ => lines = if s.verbose then [.ok] else []

inductive Answered (parse : Bytes → Except Exc Value) (s : Session) (op rest : Bytes) :
    Handled → Prop
  | accepted {operation : Operation} {lines : List Line}
      (accepts : Accepts parse s op rest operation)
      (confirmed : Confirmed (operation.apply s) lines operation) :
      Answered parse s op rest ⟨operation.apply s, lines, false⟩
  | refused {s' : Session} {detail : Bytes} {closes : Bool}
      (rejects : ∀ operation, ¬ Accepts parse s op rest operation) (same : SameState s s')
      (closing : closes = true ↔ op = utf8 "INIT" ∨ s.initialized = false) :
      Answered parse s op rest ⟨s', [.err detail], closes⟩

section Handlers

variable {parse : Bytes → Except Exc Value} {s : Session}

/-! What a session that accepts an operation of a given name must have seen. -/

theorem Accepts.of_init {rest : Bytes} {operation : Operation}
    (accepts : Accepts parse s (utf8 "INIT") rest operation) :
    s.initialized = false ∧ ∃ members versions schema verbose serviceId,
      parse rest = .ok (.object members) ∧
      Json.find members (utf8 "versions") = some versions ∧
      Json.find members (utf8 "schema") = some schema ∧
      Json.find members (utf8 "service_id") = some (.string serviceId) ∧
      supports10 (elements versions) = .ok true ∧ verboseOf members = .ok verbose := by
  generalize named : utf8 "INIT" = op at accepts
  cases accepts with
  | init fresh parsed hasVersions hasSchema hasService supported isVerbose =>
      exact ⟨fresh, _, _, _, _, _, parsed, hasVersions, hasSchema, hasService, supported, isVerbose⟩
  | xsub => exact absurd named (by decide)
  | sub => exact absurd named (by decide)
  | unsub => exact absurd named (by decide)
  | xunsub => exact absurd named (by decide)

theorem Accepts.of_xsub {rest : Bytes} {operation : Operation}
    (accepts : Accepts parse s (utf8 "XSUB") rest operation) :
    ∃ xsub, XSubFields (splitFields rest) xsub ∧ validToken xsub.streamId = true := by
  generalize named : utf8 "XSUB" = op at accepts
  cases accepts with
  | init => exact absurd named (by decide)
  | xsub ready fields valid => exact ⟨_, fields, valid⟩
  | sub => exact absurd named (by decide)
  | unsub => exact absurd named (by decide)
  | xunsub => exact absurd named (by decide)

theorem Accepts.of_sub {rest : Bytes} {operation : Operation}
    (accepts : Accepts parse s (utf8 "SUB") rest operation) :
    ∃ sub group, SubFields (splitFields rest) sub group ∧ validToken sub.subscriptionId = true ∧
      validToken sub.topic = true ∧ group.all validToken = true ∧
      s.standardSubs.find sub.subscriptionId = none ∧ operation = .sub sub := by
  generalize named : utf8 "SUB" = op at accepts
  cases accepts with
  | init => exact absurd named (by decide)
  | xsub => exact absurd named (by decide)
  | sub ready fields validId validTopic validGroup unused =>
      exact ⟨_, _, fields, validId, validTopic, validGroup, unused, rfl⟩
  | unsub => exact absurd named (by decide)
  | xunsub => exact absurd named (by decide)

theorem Accepts.of_unsub {rest : Bytes} {operation : Operation}
    (accepts : Accepts parse s (utf8 "UNSUB") rest operation) :
    ∃ subscriptionId, splitFields rest = [subscriptionId] ∧ validToken subscriptionId = true ∧
      s.standardSubs.find subscriptionId ≠ none := by
  generalize named : utf8 "UNSUB" = op at accepts
  cases accepts with
  | init => exact absurd named (by decide)
  | xsub => exact absurd named (by decide)
  | sub => exact absurd named (by decide)
  | unsub ready fields valid active => exact ⟨_, fields, valid, active⟩
  | xunsub => exact absurd named (by decide)

theorem Accepts.of_xunsub {rest : Bytes} {operation : Operation}
    (accepts : Accepts parse s (utf8 "XUNSUB") rest operation) :
    ∃ streamId, splitFields rest = [streamId] ∧ validToken streamId = true ∧
      operation = .xunsub streamId := by
  generalize named : utf8 "XUNSUB" = op at accepts
  cases accepts with
  | init => exact absurd named (by decide)
  | xsub => exact absurd named (by decide)
  | sub => exact absurd named (by decide)
  | unsub => exact absurd named (by decide)
  | xunsub ready fields valid => exact ⟨_, fields, valid, rfl⟩

theorem answered_refuse {op rest : Bytes} (ready : s.initialized = true) (other : op ≠ utf8 "INIT")
    (detail : String) (rejects : ∀ operation, ¬ Accepts parse s op rest operation) :
    Answered parse s op rest (s.refuse detail) := by
  refine .refused rejects (.refl s) ?_
  constructor
  · intro closes
    cases closes
  · intro cause
    rcases cause with named | fresh
    · exact absurd named other
    · rw [ready] at fresh
      cases fresh

theorem answered_refuseInit {rest : Bytes} {s' : Session} (same : SameState s s') (e : Exc)
    (rejects : ∀ operation, ¬ Accepts parse s (utf8 "INIT") rest operation) :
    Answered parse s (utf8 "INIT") rest (refuseInit s' e) :=
  .refused rejects same ⟨fun _ => .inl rfl, fun _ => rfl⟩

theorem answered_refuseInitWith {rest : Bytes} (detail : String)
    (rejects : ∀ operation, ¬ Accepts parse s (utf8 "INIT") rest operation) :
    Answered parse s (utf8 "INIT") rest (refuseInitWith s detail) :=
  .refused rejects (.refl s) ⟨fun _ => .inl rfl, fun _ => rfl⟩

theorem encoded_of_mem {members : List (Bytes × Value)} (encoded : JsonText.EncodedMembers members)
    {member : Bytes × Value} (inside : member ∈ members) : member.2.Encoded := by
  induction members with
  | nil => cases inside
  | cons first rest ih =>
      simp only [JsonText.EncodedMembers] at encoded
      rcases List.mem_cons.mp inside with here | later
      · rw [here]
        exact encoded.2.1
      · exact ih encoded.2.2 later

theorem find_encoded {members : List (Bytes × Value)} {name : Bytes} {value : Value}
    (encoded : (Value.object members).Encoded) (found : Json.find members name = some value) :
    value.Encoded := by
  rcases Option.map_eq_some_iff.mp found with ⟨member, hit, same⟩
  have inside := List.mem_reverse.mp (List.mem_of_find?_eq_some hit)
  rw [← same]
  rw [JsonText.Value.Encoded] at encoded
  exact encoded_of_mem encoded inside

theorem handleInit_answered (encoded : ∀ text value, parse text = .ok value → value.Encoded)
    (port : UInt16) (rest : Bytes) :
    Answered parse s (utf8 "INIT") rest (handleInit parse port s rest) := by
  unfold handleInit
  split
  · next again =>
    apply answered_refuseInitWith
    intro operation accepts
    rw [accepts.of_init.1] at again
    cases again
  · next fresh =>
    have fresh : s.initialized = false := eq_false_of_ne_true fresh
    split
    · next e failed =>
      apply answered_refuseInit (.refl s)
      intro operation accepts
      rcases accepts.of_init.2 with ⟨_, _, _, _, _, parsed, _⟩
      rw [failed] at parsed
      cases parsed
    · next members parsed =>
      -- what an accepting session would have seen, next to what this one has
      have seen : ∀ {operation}, Accepts parse s (utf8 "INIT") rest operation →
          ∃ versions schema verbose serviceId,
            Json.find members (utf8 "versions") = some versions ∧
            Json.find members (utf8 "schema") = some schema ∧
            Json.find members (utf8 "service_id") = some (.string serviceId) ∧
            supports10 (elements versions) = .ok true ∧ verboseOf members = .ok verbose := by
        intro operation accepts
        rcases accepts.of_init.2 with ⟨_, versions, schema, verbose, serviceId, again, found⟩
        rw [parsed] at again
        injection again with same
        injection same with same
        subst same
        exact ⟨versions, schema, verbose, serviceId, found⟩
      split
      · next versions schema service hasVersions hasSchema hasService =>
        split
        · next e failed =>
          apply answered_refuseInit (.refl s)
          intro operation accepts
          rcases seen accepts with ⟨_, _, _, _, again, _, _, supported, _⟩
          rw [hasVersions] at again
          injection again with same
          rw [← same, failed] at supported
          cases supported
        · next unsupported =>
          apply answered_refuseInitWith
          intro operation accepts
          rcases seen accepts with ⟨_, _, _, _, again, _, _, supported, _⟩
          rw [hasVersions] at again
          injection again with same
          rw [← same, unsupported] at supported
          cases supported
        · next supported =>
          split
          · next e failed =>
            apply answered_refuseInit (.refl s)
            intro operation accepts
            rcases seen accepts with ⟨_, _, _, _, _, _, _, _, isVerbose⟩
            rw [failed] at isVerbose
            cases isVerbose
          · next verbose isVerbose =>
            split
            · next e failed =>
              have same : SameState s { s with verbose } := ⟨rfl, rfl, rfl, rfl, rfl⟩
              apply answered_refuseInit same
              intro operation accepts
              rcases seen accepts with ⟨_, _, _, _, _, _, again, _, _⟩
              rw [hasService] at again
              injection again with same
              rw [same] at failed
              cases failed
            · next serviceId isString =>
              have isService : service = .string serviceId := by
                cases service with
                | string text =>
                    injection isString with same
                    rw [same]
                | null => cases isString
                | bool b => cases isString
                | number literal => cases isString
                | array items => cases isString
                | object members => cases isString
              have valid : Utf8.Valid serviceId := by
                have inner := find_encoded (encoded _ _ parsed) hasService
                rw [isService, JsonText.Value.Encoded] at inner
                exact inner
              rw [isService] at hasService
              have accepts : Accepts parse s (utf8 "INIT") rest (.init verbose serviceId) :=
                .init fresh parsed hasVersions hasSchema hasService supported isVerbose
              simp only [makeInfoJson, if_pos valid]
              exact .accepted accepts ⟨_, rfl⟩
      · next missing =>
        apply answered_refuseInitWith
        intro operation accepts
        rcases seen accepts with ⟨versions, schema, _, serviceId, first, second, third, _⟩
        exact missing versions schema _ first second third
    · next value notObject parsed =>
      apply answered_refuseInitWith
      intro operation accepts
      rcases accepts.of_init.2 with ⟨members, _, _, _, _, again, _⟩
      rw [parsed] at again
      injection again with same
      exact notObject members same

theorem handleXSub_answered (ready : s.initialized = true) (rest : Bytes) :
    Answered parse s (utf8 "XSUB") rest (handleXSub s rest) := by
  have refused : ∀ detail, (∀ xsub, XSubFields (splitFields rest) xsub →
      validToken xsub.streamId ≠ true) →
      Answered parse s (utf8 "XSUB") rest (s.refuse detail) := by
    intro detail invalid
    apply answered_refuse ready (by decide)
    intro operation accepts
    rcases accepts.of_xsub with ⟨xsub, fields, valid⟩
    exact invalid xsub fields valid
  unfold handleXSub
  split
  · next streamId topicPattern fields =>
    split
    · next valid =>
      have accepts : Accepts parse s (utf8 "XSUB") rest (.xsub { streamId, topicPattern }) :=
        .xsub ready (.inl ⟨fields, rfl⟩) valid
      exact .accepted accepts rfl
    · next invalid =>
      apply refused
      intro xsub given valid
      rcases given with ⟨same, _⟩ | same
      · rw [fields] at same
        injection same with same _
        exact invalid (same ▸ valid)
      · rw [fields] at same
        cases same
  · next streamId topicPattern messagePattern fields =>
    split
    · next valid =>
      have accepts : Accepts parse s (utf8 "XSUB") rest
          (.xsub { streamId, topicPattern, messagePattern }) :=
        .xsub ready (.inr fields) valid
      exact .accepted accepts rfl
    · next invalid =>
      apply refused
      intro xsub given valid
      rcases given with ⟨same, _⟩ | same
      · rw [fields] at same
        cases same
      · rw [fields] at same
        injection same with same _
        exact invalid (same ▸ valid)
  · next notTwo notThree =>
    apply refused
    intro xsub given _
    rcases given with ⟨same, _⟩ | same
    · exact notTwo _ _ same
    · exact notThree _ _ _ same

theorem SubFields.unique {fields : List Bytes} {sub sub' : StandardSub} {group group' : List Bytes}
    (given : SubFields fields sub group) (other : SubFields fields sub' group') :
    sub' = sub ∧ group' = group := by
  rcases given with ⟨same, _⟩
  rcases other with ⟨same', _⟩
  rw [same] at same'
  simp only [List.cons_append, List.nil_append] at same'
  injection same' with first same'
  injection same' with second same'
  injection same' with third same'
  cases sub
  cases sub'
  simp only at first second third
  rw [first, second, third, same']
  exact ⟨rfl, rfl⟩

theorem handleSub_answered (ready : s.initialized = true) (rest : Bytes) :
    Answered parse s (utf8 "SUB") rest (handleSub s rest) := by
  have added : ∀ sub group, SubFields (splitFields rest) sub group →
      Answered parse s (utf8 "SUB") rest
        (if validToken sub.subscriptionId && validToken sub.topic && group.all validToken then
          if absent : s.standardSubs.find sub.subscriptionId = none then
            { s with
              standardSubs := s.standardSubs.add sub.subscriptionId sub absent }.confirm
          else s.refuse "Illegal-State subscription-id already in use"
        else s.refuse "Illegal-Argument invalid SUB token") := by
    intro sub group fields
    split
    · next valid =>
      rw [Bool.and_eq_true, Bool.and_eq_true] at valid
      split
      · next absent =>
        have accepts : Accepts parse s (utf8 "SUB") rest (.sub sub) :=
          .sub ready fields valid.1.1 valid.1.2 valid.2 absent
        have confirmed : Confirmed ((Operation.sub sub).apply s)
            (if s.verbose then [.ok] else []) (.sub sub) := by
          simp only [Operation.apply, dif_pos absent]
          rfl
        have done := Answered.accepted accepts confirmed
        simp only [Operation.apply, dif_pos absent] at done
        exact done
      · next used =>
        apply answered_refuse ready (by decide)
        intro operation accepts
        rcases accepts.of_sub with ⟨other, group', given, _, _, _, unused, _⟩
        rw [(fields.unique given).1] at unused
        exact used unused
    · next invalid =>
      apply answered_refuse ready (by decide)
      intro operation accepts
      rcases accepts.of_sub with ⟨other, group', given, validId, validTopic, validGroup, _⟩
      rw [(fields.unique given).1] at validId validTopic
      rw [(fields.unique given).2] at validGroup
      apply invalid
      rw [validId, validTopic, validGroup]
      rfl
  unfold handleSub
  split
  · next subscriptionId messageName topic fields =>
    exact added ⟨subscriptionId, messageName, topic⟩ [] ⟨fields, by decide⟩
  · next subscriptionId messageName topic group fields =>
    exact added ⟨subscriptionId, messageName, topic⟩ [group] ⟨fields, by simp⟩
  · next notThree notFour =>
    apply answered_refuse ready (by decide)
    intro operation accepts
    rcases accepts.of_sub with ⟨other, group, ⟨fields, short⟩, _⟩
    cases group with
    | nil => exact notThree _ _ _ fields
    | cons last more =>
        cases more with
        | nil => exact notFour _ _ _ _ fields
        | cons _ _ => simp at short

theorem handleUnsub_answered (ready : s.initialized = true) (rest : Bytes) :
    Answered parse s (utf8 "UNSUB") rest (handleUnsub s rest) := by
  have refused : ∀ detail, (∀ subscriptionId, splitFields rest = [subscriptionId] →
      validToken subscriptionId = true → s.standardSubs.find subscriptionId = none) →
      Answered parse s (utf8 "UNSUB") rest (s.refuse detail) := by
    intro detail inactive
    apply answered_refuse ready (by decide)
    intro operation accepts
    rcases accepts.of_unsub with ⟨subscriptionId, fields, valid, active⟩
    exact active (inactive subscriptionId fields valid)
  unfold handleUnsub
  split
  · next subscriptionId fields =>
    split
    · next valid =>
      split
      · next inactive =>
        apply refused
        intro other same _
        rw [fields] at same
        injection same with same _
        rw [← same, inactive]
      · next active =>
        have accepts : Accepts parse s (utf8 "UNSUB") rest (.unsub subscriptionId) :=
          .unsub ready fields valid active
        exact .accepted accepts rfl
    · next invalid =>
      apply refused
      intro other same valid
      rw [fields] at same
      injection same with same _
      exact absurd (same ▸ valid) invalid
  · next notOne =>
    apply refused
    intro other same _
    exact absurd same (notOne other)

theorem handleXUnsub_answered (ready : s.initialized = true) (rest : Bytes) :
    Answered parse s (utf8 "XUNSUB") rest (handleXUnsub s rest) := by
  have refused : ∀ detail, (∀ streamId, splitFields rest = [streamId] →
      validToken streamId ≠ true) →
      Answered parse s (utf8 "XUNSUB") rest (s.refuse detail) := by
    intro detail invalid
    apply answered_refuse ready (by decide)
    intro operation accepts
    rcases accepts.of_xunsub with ⟨streamId, fields, valid, _⟩
    exact invalid streamId fields valid
  unfold handleXUnsub
  split
  · next streamId fields =>
    split
    · next valid =>
      have accepts : Accepts parse s (utf8 "XUNSUB") rest (.xunsub streamId) :=
        .xunsub ready fields valid
      exact .accepted accepts rfl
    · next invalid =>
      apply refused
      intro other same valid
      rw [fields] at same
      injection same with same _
      exact invalid (same ▸ valid)
  · next notOne =>
    apply refused
    intro other same _
    exact notOne other same

theorem Accepts.known {op rest : Bytes} {operation : Operation}
    (accepts : Accepts parse s op rest operation) :
    op = utf8 "INIT" ∧ s.initialized = false ∨
      s.initialized = true ∧
        (op = utf8 "XSUB" ∨ op = utf8 "XUNSUB" ∨ op = utf8 "SUB" ∨ op = utf8 "UNSUB") := by
  cases accepts with
  | init fresh => exact .inl ⟨rfl, fresh⟩
  | xsub ready => exact .inr ⟨ready, .inl rfl⟩
  | sub ready => exact .inr ⟨ready, .inr (.inr (.inl rfl))⟩
  | unsub ready => exact .inr ⟨ready, .inr (.inr (.inr rfl))⟩
  | xunsub ready => exact .inr ⟨ready, .inr (.inl rfl)⟩

theorem handleLine_answered_other (port : UInt16) {line op rest : Bytes}
    (field : firstField line = some (op, rest)) (other : op ≠ utf8 "INIT") :
    Answered parse s op rest (handleLine parse port s line) := by
  unfold handleLine
  rw [field]
  simp only
  rw [if_neg other]
  by_cases fresh : s.initialized = false
  · rw [if_pos fresh]
    refine .refused ?_ (.refl s) ⟨fun _ => .inr fresh, fun _ => rfl⟩
    intro operation accepts
    rcases accepts.known with known | known
    · exact other known.1
    · rw [fresh] at known
      cases known.1
  · rw [if_neg fresh]
    have ready : s.initialized = true := eq_true_of_ne_false fresh
    by_cases isXSub : op = utf8 "XSUB"
    · rw [if_pos isXSub, isXSub]
      exact handleXSub_answered ready rest
    · by_cases isXUnsub : op = utf8 "XUNSUB"
      · rw [if_neg isXSub, if_pos isXUnsub, isXUnsub]
        exact handleXUnsub_answered ready rest
      · by_cases isSub : op = utf8 "SUB"
        · rw [if_neg isXSub, if_neg isXUnsub, if_pos isSub, isSub]
          exact handleSub_answered ready rest
        · by_cases isUnsub : op = utf8 "UNSUB"
          · rw [if_neg isXSub, if_neg isXUnsub, if_neg isSub, if_pos isUnsub, isUnsub]
            exact handleUnsub_answered ready rest
          · have rejects : ∀ operation, ¬ Accepts parse s op rest operation := by
              intro operation accepts
              rcases accepts.known with known | known
              · exact other known.1
              · rcases known.2 with named | named | named | named
                · exact isXSub named
                · exact isXUnsub named
                · exact isSub named
                · exact isUnsub named
            rw [if_neg isXSub, if_neg isXUnsub, if_neg isSub, if_neg isUnsub]
            split
            · exact answered_refuse ready other _ rejects
            · exact answered_refuse ready other _ rejects

theorem handleLine_init (port : UInt16) {line rest : Bytes}
    (field : firstField line = some (utf8 "INIT", rest)) :
    handleLine parse port s line = handleInit parse port s rest := by
  unfold handleLine
  rw [field]
  simp only [if_true]

theorem handleLine_answered (encoded : ∀ text value, parse text = .ok value → value.Encoded)
    (port : UInt16) {line op rest : Bytes} (field : firstField line = some (op, rest)) :
    Answered parse s op rest (handleLine parse port s line) := by
  by_cases isInit : op = utf8 "INIT"
  · rw [isInit] at field
    rw [handleLine_init port field, isInit]
    exact handleInit_answered encoded port rest
  · exact handleLine_answered_other port field isInit

end Handlers

theorem Operation.apply_isOpen (operation : Operation) (s : Session) :
    (operation.apply s).isOpen = s.isOpen := by
  cases operation with
  | init verbose serviceId => rfl
  | xsub added => rfl
  | sub added =>
      simp only [Operation.apply]
      split
      · rfl
      · rfl
  | unsub subscriptionId => rfl
  | xunsub streamId => rfl

theorem Session.setOpen {s : Session} (isOpen : s.isOpen = true) :
    { s with isOpen := true } = s := by
  cases s
  cases isOpen
  rfl

section Lines

variable (parse : Bytes → Except Exc Value) (port : UInt16)

/-- The read handler: a closed session reads no more. `sendLine` sends while the session is
open, and it is closed behind the lines. -/
def receive (s : Session) (line : Bytes) : Session × List Line :=
  if s.isOpen then
    let handled := handleLine parse port s line
    ({ handled.session with isOpen := !handled.closes }, handled.lines)
  else (s, [])

def after (s : Session) (lines : List Bytes) : Session :=
  lines.foldl (fun s line => (receive parse port s line).1) s

theorem after_append (s : Session) (first second : List Bytes) :
    after parse port s (first ++ second) = after parse port (after parse port s first) second :=
  List.foldl_append

theorem after_closed {s : Session} (closed : s.isOpen = false) (lines : List Bytes) :
    after parse port s lines = s := by
  induction lines with
  | nil => rfl
  | cons line rest ih =>
      change after parse port (receive parse port s line).1 rest = s
      rw [receive, if_neg (by rw [closed]; decide)]
      exact ih

end Lines

def Blank (line : Bytes) : Prop := ∀ c ∈ line, isWs c = true

theorem trim_eq_nil_iff (s : Bytes) : trim s = [] ↔ Blank s := by
  rw [trim, List.rdropWhile_eq_nil_iff]
  constructor
  · intro blank
    have empty : s.dropWhile isWs = [] := by
      cases left : s.dropWhile isWs with
      | nil => rfl
      | cons c rest =>
          have head := List.head?_dropWhile_not isWs s
          rw [left] at head blank
          have white := blank c List.mem_cons_self
          simp [white] at head
    intro c member
    exact List.dropWhile_eq_nil_iff.mp empty c member
  · intro blank c member
    exact blank c ((List.dropWhile_sublist isWs).subset member)

theorem firstField_none_iff (line : Bytes) : firstField line = none ↔ Blank line := by
  rw [← trim_eq_nil_iff, firstField]
  by_cases empty : trim line = []
  · simp [empty]
  · by_cases several : space ∈ trim line
    · simp [empty, several]
    · simp [empty, several]

section Discipline

variable (parse : Bytes → Except Exc Value) (port : UInt16)

def AcceptsLine (s : Session) (line : Bytes) (operation : Operation) : Prop :=
  ∃ op rest, firstField line = some (op, rest) ∧ Accepts parse s op rest operation

def IsInit (line : Bytes) : Prop := ∃ rest, firstField line = some (utf8 "INIT", rest)

/-- A refused `INIT`, or another operation before it. -/
def Closes (s : Session) (line : Bytes) : Prop :=
  ¬ Blank line ∧ (∀ operation, ¬ AcceptsLine parse s line operation) ∧
    (IsInit line ∨ s.initialized = false)

def Session.subscriptions (s : Session) :
    List XSub × Table Bytes StandardSub × Table Bytes Bytes × UInt64 :=
  (s.xsubs, s.standardSubs, s.concreteSubs, s.nextSubId)

/-- Replies are disciplined and errors are atomic. -/
structure Disciplined : Prop where
  answers : ∀ s line, s.isOpen = true → ¬ Blank line →
    (∃ operation, AcceptsLine parse s line operation ∧
      (receive parse port s line).1 = operation.apply s ∧
      Confirmed (operation.apply s) (receive parse port s line).2 operation) ∨
    ((∀ operation, ¬ AcceptsLine parse s line operation) ∧
      SameState s (receive parse port s line).1 ∧
      ∃ detail, (receive parse port s line).2 = [.err detail])
  waitsForInit : ∀ s, s.initialized = false → ∀ lines line,
    (after parse port s (lines ++ [line])).subscriptions ≠ (after parse port s lines).subscriptions →
      ∃ before init rest verbose serviceId, lines = before ++ init :: rest ∧
        AcceptsLine parse (after parse port s before) init (.init verbose serviceId)
  staysClosed : ∀ s lines line, (after parse port s lines).isOpen = true →
    Closes parse (after parse port s lines) line → ∀ more last,
      receive parse port (after parse port s (lines ++ line :: more)) last =
        (after parse port s (lines ++ [line]), [])

variable {parse}

theorem receive_answers (encoded : ∀ text value, parse text = .ok value → value.Encoded)
    {s : Session} {line : Bytes} (isOpen : s.isOpen = true) (shown : ¬ Blank line) :
    (∃ operation, AcceptsLine parse s line operation ∧
      (receive parse port s line).1 = operation.apply s ∧
      Confirmed (operation.apply s) (receive parse port s line).2 operation) ∨
    ((∀ operation, ¬ AcceptsLine parse s line operation) ∧
      SameState s (receive parse port s line).1 ∧
      (∃ detail, (receive parse port s line).2 = [.err detail]) ∧
      (Closes parse s line → (receive parse port s line).1.isOpen = false)) := by
  cases field : firstField line with
  | none => exact absurd ((firstField_none_iff line).mp field) shown
  | some opRest =>
      rcases opRest with ⟨op, rest⟩
      have answered := handleLine_answered (s := s) encoded port field
      rw [receive, if_pos isOpen]
      generalize handleLine parse port s line = handled at answered
      cases answered with
      | accepted accepts confirmed =>
          rename_i operation lines
          left
          refine ⟨operation, ⟨op, rest, field, accepts⟩, ?_, confirmed⟩
          exact Session.setOpen ((operation.apply_isOpen s).trans isOpen)
      | refused rejects same closing =>
          right
          refine ⟨?_, ⟨same.1, same.2, same.3, same.4, same.5⟩, ⟨_, rfl⟩, ?_⟩
          · intro operation accepts
            rcases accepts with ⟨op', rest', field', accepts⟩
            rw [field] at field'
            injection field' with same'
            injection same' with sameOp sameRest
            rw [← sameOp, ← sameRest] at accepts
            exact rejects operation accepts
          · intro closed
            have cause : op = utf8 "INIT" ∨ s.initialized = false := by
              rcases closed.2.2 with ⟨rest', isInit⟩ | fresh
              · rw [field] at isInit
                injection isInit with same'
                injection same' with sameOp _
                exact .inl sameOp
              · exact .inr fresh
            simp only [closing.mpr cause, Bool.not_true]

theorem receive_blank {s : Session} {line : Bytes} (blank : Blank line) :
    receive parse port s line = (s, []) := by
  unfold receive
  split
  · next isOpen =>
    simp only [handleLine, (firstField_none_iff line).mpr blank, Bool.not_false]
    rw [Session.setOpen isOpen]
  · rfl

theorem receive_fresh (encoded : ∀ text value, parse text = .ok value → value.Encoded)
    {s : Session} (fresh : s.initialized = false) (line : Bytes) :
    (receive parse port s line).1.subscriptions = s.subscriptions ∧
      ((∀ verbose serviceId, ¬ AcceptsLine parse s line (.init verbose serviceId)) →
        (receive parse port s line).1.initialized = false) := by
  by_cases blank : Blank line
  · rw [receive_blank port blank]
    exact ⟨rfl, fun _ => fresh⟩
  · cases isOpen : s.isOpen with
    | false =>
        rw [receive, if_neg (by rw [isOpen]; decide)]
        exact ⟨rfl, fun _ => fresh⟩
    | true =>
        rcases receive_answers port encoded isOpen blank with
          ⟨operation, accepts, left, _⟩ | ⟨_, same, _⟩
        · rw [left]
          have accepts' := accepts
          rcases accepts' with ⟨op, rest, _, given⟩
          cases given with
          | init =>
              refine ⟨rfl, ?_⟩
              intro noInit
              exact absurd accepts (noInit _ _)
          | xsub ready =>
              rw [fresh] at ready
              cases ready
          | sub ready =>
              rw [fresh] at ready
              cases ready
          | unsub ready =>
              rw [fresh] at ready
              cases ready
          | xunsub ready =>
              rw [fresh] at ready
              cases ready
        · constructor
          · simp only [Session.subscriptions, same.xsubs, same.standardSubs, same.concreteSubs,
              same.nextSubId]
          · intro _
            rw [same.initialized, fresh]

theorem after_fresh (encoded : ∀ text value, parse text = .ok value → value.Encoded)
    {s : Session} (fresh : s.initialized = false) (lines : List Bytes) :
    (after parse port s lines).initialized = false ∨
      ∃ before init rest verbose serviceId, lines = before ++ init :: rest ∧
        AcceptsLine parse (after parse port s before) init (.init verbose serviceId) := by
  induction lines generalizing s with
  | nil => exact .inl fresh
  | cons line rest ih =>
      by_cases accepted : ∃ verbose serviceId, AcceptsLine parse s line (.init verbose serviceId)
      · rcases accepted with ⟨verbose, serviceId, accepts⟩
        exact .inr ⟨[], line, rest, verbose, serviceId, rfl, accepts⟩
      · have noInit : ∀ verbose serviceId,
            ¬ AcceptsLine parse s line (.init verbose serviceId) := by
          intro verbose serviceId accepts
          exact accepted ⟨verbose, serviceId, accepts⟩
        have next := (receive_fresh port encoded fresh line).2 noInit
        rcases ih next with waits | ⟨before, init, later, verbose, serviceId, same, accepts⟩
        · exact .inl waits
        · refine .inr ⟨line :: before, init, later, verbose, serviceId, ?_, accepts⟩
          rw [same, List.cons_append]

/-- Every session, from any state, over any lines. -/
theorem disciplined (parse : Bytes → Except Exc Value)
    (encoded : ∀ text value, parse text = .ok value → value.Encoded) (port : UInt16) :
    Disciplined parse port where
  answers := by
    intro s line isOpen shown
    rcases receive_answers port encoded isOpen shown with accepted | refused
    · exact .inl accepted
    · exact .inr ⟨refused.1, refused.2.1, refused.2.2.1⟩
  waitsForInit := by
    intro s fresh lines line changed
    rcases after_fresh port encoded fresh lines with waits | accepted
    · apply absurd _ changed
      rw [after_append]
      exact (receive_fresh port encoded waits line).1
    · exact accepted
  staysClosed := by
    intro s lines line isOpen closes more last
    have closed : (after parse port s (lines ++ [line])).isOpen = false := by
      rw [after_append]
      rcases receive_answers port encoded isOpen closes.1 with
        ⟨operation, accepts, _⟩ | refused
      · exact absurd accepts (closes.2.1 operation)
      · exact refused.2.2.2 closes
    have still : after parse port s (lines ++ line :: more) =
        after parse port s (lines ++ [line]) := by
      rw [← List.singleton_append, ← List.append_assoc, after_append]
      exact after_closed parse port closed more
    rw [still, receive, if_neg (by rw [closed]; decide)]

end Discipline

section Sample

def initDocument : Value :=
  .object [(utf8 "versions", .array [.string (utf8 "1.0")]), (utf8 "schema", .string (utf8 "2.5.0")),
    (utf8 "service_id", .string (utf8 "tooling-client"))]

def initText : Bytes :=
  utf8 "\x7b\"versions\":[\"1.0\"],\"schema\":\"2.5.0\",\"service_id\":\"tooling-client\"\x7d"

def sampleParse (text : Bytes) : Except Exc Value :=
  if text = initText then .ok initDocument else .error (.jsonException [])

theorem sampleParse_encoded (text : Bytes) (value : Value)
    (parsed : sampleParse text = .ok value) : value.Encoded := by
  unfold sampleParse at parsed
  split at parsed
  · injection parsed with same
    rw [← same]
    simp only [initDocument, JsonText.Value.Encoded, JsonText.EncodedMembers,
      JsonText.EncodedItems, and_true]
    exact ⟨⟨_, rfl⟩, ⟨_, rfl⟩, ⟨_, rfl⟩, ⟨_, rfl⟩, ⟨_, rfl⟩, ⟨_, rfl⟩⟩
  · cases parsed

theorem disciplined_sample : Disciplined sampleParse 8766 :=
  disciplined sampleParse sampleParse_encoded 8766

end Sample

end Arcal.Lacal
