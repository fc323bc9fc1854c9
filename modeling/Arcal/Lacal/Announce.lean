import Arcal.Lacal.Uninterrupted

/-! What is sent on behalf of an `XSUB` is announced first, and an id stands for one thing
until the counter has gone round. -/

namespace Arcal.Lacal

open JsonText (Value)
open Transition

def linesOf (thread : Thread) (lines : List (Thread × Line)) : List Line :=
  (lines.filter fun sent => sent.1 = thread).map Prod.snd

/-- An order in which lines reach the client: those of each thread come in the order they were
posted in, as far as they get. -/
def Emitted (events : List Event) (lines : List (Thread × Line)) : Prop :=
  ∀ thread, linesOf thread lines <+: posted thread events

/-- Before a message for an `XSUB`, its id was announced for what it is sent for. -/
def AnnouncedFirst (lines : List Line) : Prop :=
  ∀ before concrete subId json, before ++ [.msg (some concrete) subId json] <+: lines →
    .xsubInfo concrete subId ∈ before

/-- No id is announced for two things. -/
def NamedOnce (lines : List Line) : Prop :=
  ∀ subId concrete other, .xsubInfo concrete subId ∈ lines → .xsubInfo other subId ∈ lines →
    concrete = other

theorem AnnouncedFirst.snoc {lines : List Line} {line : Line} (first : AnnouncedFirst lines)
    (last : ∀ concrete subId json, line = .msg (some concrete) subId json →
      .xsubInfo concrete subId ∈ lines) : AnnouncedFirst (lines ++ [line]) := by
  intro before concrete subId json here
  rcases List.prefix_concat_iff.mp here with whole | earlier
  · rcases List.append_inj' whole rfl with ⟨same, isLine⟩
    rw [same]
    exact last concrete subId json (List.cons.inj isLine).1.symm
  · exact first before concrete subId json earlier

theorem AnnouncedFirst.emitted {events : List Event} {lines : List (Thread × Line)}
    (order : Emitted events lines) (replies : (posted .io events).all Line.isReply = true)
    (first : AnnouncedFirst (posted .monitor events)) : AnnouncedFirst (lines.map Prod.snd) := by
  intro before concrete subId json here
  rcases here with ⟨after, whole⟩
  rw [List.append_assoc, List.singleton_append] at whole
  rcases List.map_eq_append_iff.mp whole.symm with ⟨sent, later, split, sentLines, laterLines⟩
  rcases List.map_eq_cons_iff.mp laterLines with ⟨message, rest, splitLater, isMessage, _⟩
  rcases message with ⟨thread, line⟩
  simp only at isMessage
  subst isMessage
  have chosen : ∀ other, linesOf other lines = linesOf other sent ++
      (linesOf other [(thread, Line.msg (some concrete) subId json)] ++ linesOf other rest) := by
    intro other
    rw [split, splitLater, ← List.singleton_append]
    simp only [linesOf, List.filter_append, List.map_append]
  cases thread with
  | io =>
      have member : Line.msg (some concrete) subId json ∈ posted .io events := by
        apply (order .io).subset
        rw [chosen .io]
        exact List.mem_append_right _ (List.mem_append_left _ (List.mem_singleton_self _))
      exact absurd (List.all_eq_true.mp replies _ member) Bool.false_ne_true
  | monitor =>
      have start : linesOf .monitor sent ++ [Line.msg (some concrete) subId json] <+:
          posted .monitor events := by
        refine List.IsPrefix.trans ?_ (order .monitor)
        rw [chosen .monitor, ← List.append_assoc]
        exact List.prefix_append _ _
      have told := first _ concrete subId json start
      rw [← sentLines]
      exact (List.filter_sublist.map Prod.snd).subset told

/-- None of the names holds a line break. -/
def Concrete.Named (concrete : Concrete) : Prop :=
  newline ∉ concrete.streamId ∧ newline ∉ concrete.topicName ∧ newline ∉ concrete.messageName

theorem append_newline_inj {left right left' right' : Bytes} (free : newline ∉ left)
    (free' : newline ∉ left') (same : left ++ newline :: right = left' ++ newline :: right') :
    left = left' ∧ right = right' := by
  induction left generalizing left' with
  | nil =>
      cases left' with
      | nil => exact ⟨rfl, (List.cons.inj same).2⟩
      | cons head tail =>
          rw [← (List.cons.inj same).1] at free'
          exact absurd List.mem_cons_self free'
  | cons head tail ih =>
      cases left' with
      | nil =>
          rw [(List.cons.inj same).1] at free
          exact absurd List.mem_cons_self free
      | cons head' tail' =>
          rcases List.cons.inj same with ⟨sameHead, sameTail⟩
          rcases ih (fun inside => free (List.mem_cons_of_mem _ inside))
            (fun inside => free' (List.mem_cons_of_mem _ inside)) sameTail with ⟨first, second⟩
          rw [sameHead, first]
          exact ⟨rfl, second⟩

theorem Concrete.key_inj {concrete other : Concrete} (named : concrete.Named) (named' : other.Named)
    (same : concrete.key = other.key) : concrete = other := by
  simp only [Concrete.key, List.append_assoc, List.singleton_append] at same
  rcases append_newline_inj named.1 named'.1 same with ⟨streams, rest⟩
  rcases append_newline_inj named.2.1 named'.2.1 rest with ⟨topics, messages⟩
  cases concrete
  cases other
  simp only at streams topics messages
  rw [streams, topics, messages]

theorem validToken_newline {token : Bytes} (valid : validToken token = true) : newline ∉ token := by
  intro inside
  rw [validToken, Bool.and_eq_true] at valid
  have allowed := List.all_eq_true.mp valid.2 newline inside
  exact absurd allowed (by decide)

theorem Sample.concrete_named (sample : Sample) {streamId : Bytes}
    (valid : validToken streamId = true) : (sample.concrete streamId).Named :=
  ⟨validToken_newline valid, sample.topicLine, sample.messageLine⟩

def Machine.Informed (m : Machine) (concrete : Concrete) (subId : Bytes) : Prop :=
  .post .monitor (.xsubInfo concrete subId) ∈ m.events ∨ m.session.isOpen = false

structure Told (m : Machine) : Prop where
  streams : ∀ xsub ∈ m.session.xsubs, validToken xsub.streamId = true
  copied : ∀ xsub ∈ m.monitor.pending, validToken xsub.streamId = true
  keys : ∀ key subId, (key, subId) ∈ m.session.concreteSubs.entries → ∃ concrete : Concrete,
    concrete.key = key ∧ concrete.Named ∧ .generated concrete subId ∈ m.events
  announced : ∀ concrete subId, .generated concrete subId ∈ m.events →
    m.Informed concrete subId ∨ m.monitor.announcing = some (concrete, subId)
  owed : ∀ concrete subId, m.monitor.sending = some (concrete, subId) → m.Informed concrete subId
  first : AnnouncedFirst (posted .monitor m.events)

section Steps

variable {parse : Bytes → Except Exc Value} {port : UInt16} {m next : Machine}

theorem Machine.Informed.step {label : Label} (moved : Moved parse port m label next)
    {concrete : Concrete} {subId : Bytes} (informed : m.Informed concrete subId) :
    next.Informed concrete subId := by
  rcases informed with told | closed
  · exact .inl (moved.grows.subset told)
  · exact .inr (moved.stays_closed closed)

theorem Told.quiet {label : Label} (told : Told m) (moved : Moved parse port m label next)
    (streams : ∀ xsub ∈ next.session.xsubs, validToken xsub.streamId = true)
    (copied : ∀ xsub ∈ next.monitor.pending, validToken xsub.streamId = true)
    (keys : next.session.concreteSubs.entries ⊆ m.session.concreteSubs.entries)
    (noNew : ∀ concrete subId, .generated concrete subId ∈ next.events →
      .generated concrete subId ∈ m.events)
    (announcing : ∀ concrete subId, m.monitor.announcing = some (concrete, subId) →
      next.Informed concrete subId ∨ next.monitor.announcing = some (concrete, subId))
    (sending : ∀ concrete subId, next.monitor.sending = some (concrete, subId) →
      next.Informed concrete subId)
    (first : AnnouncedFirst (posted .monitor next.events)) : Told next where
  streams := streams
  copied := copied
  keys := by
    intro key subId entry
    rcases told.keys key subId (keys entry) with ⟨concrete, isKey, named, generated⟩
    exact ⟨concrete, isKey, named, moved.grows.subset generated⟩
  announced := by
    intro concrete subId generated
    rcases told.announced concrete subId (noNew concrete subId generated) with informed | owes
    · exact .inl (informed.step moved)
    · exact announcing concrete subId owes
  owed := sending
  first := first

theorem Told.io {label : Label} (told : Told m) (moved : Moved parse port m label next)
    (monitor : next.monitor = m.monitor)
    (streams : ∀ xsub ∈ next.session.xsubs, xsub ∈ m.session.xsubs ∨ validToken xsub.streamId = true)
    (keys : next.session.concreteSubs.entries ⊆ m.session.concreteSubs.entries)
    {more : List Event} (events : next.events = m.events ++ more)
    (silent : posted .monitor more = []) (noIds : generations more = []) : Told next := by
  apply told.quiet moved
  · intro xsub inside
    rcases streams xsub inside with old | valid
    · exact told.streams xsub old
    · exact valid
  · rw [monitor]
    exact told.copied
  · exact keys
  · intro concrete subId generated
    rw [← mem_generations, events, generations_append, noIds, List.append_nil] at generated
    exact mem_generations.mp generated
  · intro concrete subId owes
    rw [monitor]
    exact .inr owes
  · intro concrete subId owes
    rw [monitor] at owes
    exact (told.owed concrete subId owes).step moved
  · rw [events, posted_append, silent, List.append_nil]
    exact told.first

theorem Told.loop {label : Label} (told : Told m) (moved : Moved parse port m label next)
    (session : next.session = m.session)
    (copied : ∀ xsub ∈ next.monitor.pending, xsub ∈ m.monitor.pending ∨ xsub ∈ m.session.xsubs)
    (noNew : ∀ concrete subId, .generated concrete subId ∈ next.events →
      .generated concrete subId ∈ m.events)
    (announcing : ∀ concrete subId, m.monitor.announcing = some (concrete, subId) →
      next.Informed concrete subId ∨ next.monitor.announcing = some (concrete, subId))
    (sending : ∀ concrete subId, next.monitor.sending = some (concrete, subId) →
      next.Informed concrete subId)
    (first : AnnouncedFirst (posted .monitor next.events)) : Told next := by
  refine told.quiet moved ?_ ?_ ?_ noNew announcing sending first
  · rw [session]
    exact told.streams
  · intro xsub inside
    rcases copied xsub inside with old | current
    · exact told.copied xsub old
    · exact told.streams xsub current
  · rw [session]
    exact List.Subset.refl _

theorem Told.advance {label : Label} (told : Told m) (moved : Moved parse port m label next)
    (session : next.session = m.session) (events : next.events = m.events)
    (copied : ∀ xsub ∈ next.monitor.pending, xsub ∈ m.monitor.pending ∨ xsub ∈ m.session.xsubs)
    (before : m.monitor.announcing = none) (after : next.monitor.sending = none) : Told next := by
  apply told.loop moved session copied
  · rw [events]
    exact fun _ _ generated => generated
  · intro concrete subId owes
    rw [before] at owes
    cases owes
  · intro concrete subId owes
    rw [after] at owes
    cases owes
  · rw [events]
    exact told.first

theorem sendLine_generations (m : Machine) (thread : Thread) (line : Line) :
    generations (m.sendLine thread line).events = generations m.events := by
  cases isOpen : m.session.isOpen with
  | true =>
      rw [sendLine_open isOpen, generations_append]
      exact List.append_nil _
  | false => rw [sendLine_closed isOpen]

theorem sendLine_first {line : Line} (first : AnnouncedFirst (posted .monitor m.events))
    (last : m.session.isOpen = true → ∀ concrete subId json,
      line = .msg (some concrete) subId json →
        .xsubInfo concrete subId ∈ posted .monitor m.events) :
    AnnouncedFirst (posted .monitor (m.sendLine .monitor line).events) := by
  cases isOpen : m.session.isOpen with
  | true =>
      rw [sendLine_open isOpen, posted_append]
      exact first.snoc (last isOpen)
  | false =>
      rw [sendLine_closed isOpen]
      exact first

theorem sendLine_informed (m : Machine) (concrete : Concrete) (subId : Bytes) :
    (m.sendLine .monitor (.xsubInfo concrete subId)).Informed concrete subId := by
  cases isOpen : m.session.isOpen with
  | true =>
      left
      rw [sendLine_open isOpen]
      exact List.mem_append_right _ (List.mem_singleton_self _)
  | false => exact .inr isOpen

/-- An id that is found under the key was generated for the same thing. -/
theorem Told.known {sample : Sample} {xsub : XSub} {rest : List XSub} {subId : Bytes}
    (told : Told m) (looping : m.monitor = .wildcard sample (xsub :: rest))
    (found : m.session.concreteSubs.find (sample.concrete xsub.streamId).key = some subId) :
    m.Informed (sample.concrete xsub.streamId) subId := by
  have valid : validToken xsub.streamId = true := by
    apply told.copied xsub
    rw [looping]
    exact List.mem_cons_self
  rcases told.keys _ subId (Table.find_eq_some_iff.mp found) with
    ⟨concrete, isKey, named, generated⟩
  rw [Concrete.key_inj named (sample.concrete_named valid) isKey] at generated
  rcases told.announced _ subId generated with informed | owes
  · exact informed
  · rw [looping] at owes
    cases owes

theorem Told.generated {sample : Sample} {xsub : XSub} {rest : List XSub} (told : Told m)
    (looping : m.monitor = .wildcard sample (xsub :: rest))
    (absent : m.session.concreteSubs.find (sample.concrete xsub.streamId).key = none) :
    Told { m with
      session := { m.session with
        concreteSubs := m.session.concreteSubs.add (sample.concrete xsub.streamId).key
          (generatedId m.session.nextSubId) absent
        nextSubId := m.session.nextSubId + 1 }
      monitor := .announce sample xsub.streamId (generatedId m.session.nextSubId) rest
      events := m.events ++
        [.generated (sample.concrete xsub.streamId) (generatedId m.session.nextSubId)] } := by
  have copied : ∀ xsub' ∈ xsub :: rest, validToken xsub'.streamId = true := by
    have all := told.copied
    rw [looping] at all
    exact all
  constructor
  · exact told.streams
  · intro xsub' inside
    exact copied xsub' (List.mem_cons_of_mem _ inside)
  · intro key subId entry
    simp only [Table.add_entries] at entry
    rcases List.mem_cons.mp entry with new | old
    · injection new with isKey isId
      rw [isKey, isId]
      exact ⟨_, rfl, sample.concrete_named (copied xsub List.mem_cons_self),
        List.mem_append_right _ (List.mem_singleton_self _)⟩
    · rcases told.keys key subId old with ⟨concrete, isKey, named, generated⟩
      exact ⟨concrete, isKey, named, List.mem_append_left _ generated⟩
  · intro concrete subId generated
    rcases List.mem_append.mp generated with old | new
    · rcases told.announced concrete subId old with (posted | closed) | owes
      · exact .inl (.inl (List.mem_append_left _ posted))
      · exact .inl (.inr closed)
      · rw [looping] at owes
        cases owes
    · injection List.mem_singleton.mp new with first second
      rw [first, second]
      exact .inr rfl
  · intro concrete subId owes
    cases owes
  · rw [posted_append]
    exact (List.append_nil (posted .monitor m.events)).symm ▸ told.first

theorem Told.step {label : Label} (told : Told m) (moved : Moved parse port m label next) :
    Told next := by
  have taken := moved
  cases moved with
  | line reading isOpen done =>
      rename_i payload handled
      have effect := handleLine_effect parse port m.session payload
      rw [done] at effect
      apply told.io taken rfl effect.streams effect.concreteSubs.1.subset rfl
      · cases handled.accepted with
        | true => rfl
        | false => rfl
      · cases handled.accepted with
        | true => rfl
        | false => rfl
  | post replying =>
      rename_i payload accepted line rest closes
      apply told.io taken rfl (fun xsub inside => .inl inside) (List.Subset.refl _) rfl
      · cases m.session.isOpen with
        | true => rfl
        | false => rfl
      · cases m.session.isOpen with
        | true => rfl
        | false => rfl
  | returned replying =>
      rename_i payload accepted closes
      apply told.io taken rfl (fun xsub inside => .inl inside)
        (List.Subset.refl _) rfl
      · cases accepted with
        | true => rfl
        | false => rfl
      · cases accepted with
        | true => rfl
        | false => rfl
  | disconnect reading =>
      exact told.io taken rfl (fun xsub inside => .inl inside)
        (List.Subset.refl _) (List.append_nil _).symm rfl rfl
  | arrive idle isOpen =>
      apply told.advance taken rfl rfl
      · intro xsub inside
        cases inside
      · rw [idle]
        rfl
      · rfl
  | snapshot visits order =>
      apply told.advance taken rfl rfl
      · exact fun xsub inside => .inr inside
      · rw [visits]
        rfl
      · rfl
  | standardHit looping =>
      apply told.loop taken rfl
      · intro xsub inside
        rw [looping]
        exact .inl inside
      · intro concrete subId generated
        rw [← mem_generations, sendLine_generations] at generated
        exact mem_generations.mp generated
      · intro concrete subId owes
        rw [looping] at owes
        cases owes
      · intro concrete subId owes
        cases owes
      · apply sendLine_first told.first
        intro _ concrete subId json same
        cases same
  | standardMiss looping =>
      apply told.advance taken rfl rfl
      · intro xsub inside
        rw [looping]
        exact .inl inside
      · rw [looping]
        rfl
      · rfl
  | standardEnd looping =>
      apply told.advance taken rfl rfl
      · intro xsub inside
        rw [looping]
        exact .inl inside
      · rw [looping]
        rfl
      · rfl
  | known looping hit found =>
      have informed := told.known looping found
      apply told.loop taken rfl
      · intro xsub inside
        rw [looping]
        exact .inl (List.mem_cons_of_mem _ inside)
      · exact fun _ _ generated => generated
      · intro concrete subId owes
        rw [looping] at owes
        cases owes
      · intro concrete subId owes
        injection owes with owes
        injection owes with first second
        rw [← first, ← second]
        exact informed
      · exact told.first
  | generated looping hit absent => exact told.generated looping absent
  | miss looping no =>
      apply told.advance taken rfl rfl
      · intro xsub inside
        rw [looping]
        exact .inl (List.mem_cons_of_mem _ inside)
      · rw [looping]
        rfl
      · rfl
  | wildcardEnd looping =>
      apply told.advance taken rfl rfl
      · intro xsub inside
        cases inside
      · rw [looping]
        rfl
      · rfl
  | announce owed =>
      rename_i sample streamId subId rest
      have informed := sendLine_informed m (sample.concrete streamId) subId
      apply told.loop taken rfl
      · intro xsub inside
        rw [owed]
        exact .inl inside
      · intro concrete subId' generated
        rw [← mem_generations, sendLine_generations] at generated
        exact mem_generations.mp generated
      · intro concrete subId' owes
        rw [owed] at owes
        injection owes with owes
        injection owes with first second
        rw [← first, ← second]
        exact .inl informed
      · intro concrete subId' owes
        injection owes with owes
        injection owes with first second
        rw [← first, ← second]
        exact informed
      · apply sendLine_first told.first
        intro _ concrete subId' json same
        cases same
  | message owed =>
      apply told.loop taken rfl
      · intro xsub inside
        rw [owed]
        exact .inl inside
      · intro concrete subId generated
        rw [← mem_generations, sendLine_generations] at generated
        exact mem_generations.mp generated
      · intro concrete subId owes
        rw [owed] at owes
        cases owes
      · intro concrete subId owes
        cases owes
      · apply sendLine_first told.first
        intro isOpen concrete subId json same
        injection same with isFor isId _
        injection isFor with isFor
        have informed := told.owed concrete subId (by rw [owed, ← isFor, ← isId]; rfl)
        rcases informed with posted | closed
        · exact mem_posted.mpr posted
        · rw [isOpen] at closed
          cases closed

structure Replying (m : Machine) : Prop where
  owed : ∀ payload accepted lines closes, m.io = .replying payload accepted lines closes →
    lines.all Line.isReply = true
  sent : (posted .io m.events).all Line.isReply = true

theorem Replying.monitor (replying : Replying m) (io : next.io = m.io)
    (silent : posted .io next.events = posted .io m.events) : Replying next where
  owed := by
    rw [io]
    exact replying.owed
  sent := by
    rw [silent]
    exact replying.sent

theorem sendLine_monitor_silent (m : Machine) (line : Line) :
    posted .io (m.sendLine .monitor line).events = posted .io m.events := by
  cases isOpen : m.session.isOpen with
  | true =>
      rw [sendLine_open isOpen, posted_append]
      exact List.append_nil _
  | false => rw [sendLine_closed isOpen]

theorem Replying.step {label : Label} (replying : Replying m)
    (moved : Moved parse port m label next) : Replying next := by
  cases moved with
  | line reading isOpen done =>
      rename_i payload handled
      have polite := handleLine_polite parse port m.session payload
      rw [done] at polite
      constructor
      · intro payload' accepted lines closes same
        injection same with _ _ same _
        rw [← same]
        exact polite.replies
      · rw [posted_append]
        cases handled.accepted with
        | true => exact (List.append_nil (posted .io m.events)).symm ▸ replying.sent
        | false => exact (List.append_nil (posted .io m.events)).symm ▸ replying.sent
  | post owes =>
      rename_i payload accepted line rest closes
      have polite := replying.owed _ _ _ _ owes
      rw [List.all_cons, Bool.and_eq_true] at polite
      constructor
      · intro payload' accepted' lines closes' same
        injection same with _ _ same _
        rw [← same]
        exact polite.2
      · change (posted .io (m.sendLine .io line).events).all Line.isReply = true
        cases isOpen : m.session.isOpen with
        | true =>
            rw [sendLine_open isOpen, posted_append, List.all_append, replying.sent]
            exact (Bool.and_true _).trans polite.1
        | false =>
            rw [sendLine_closed isOpen]
            exact replying.sent
  | returned owes =>
      rename_i payload accepted closes
      constructor
      · intro payload' accepted' lines closes' same
        cases same
      · rw [posted_append]
        cases accepted with
        | true => exact (List.append_nil (posted .io m.events)).symm ▸ replying.sent
        | false => exact (List.append_nil (posted .io m.events)).symm ▸ replying.sent
  | disconnect => exact replying.monitor rfl rfl
  | arrive => exact replying.monitor rfl rfl
  | snapshot => exact replying.monitor rfl rfl
  | standardHit => exact replying.monitor rfl (sendLine_monitor_silent m _)
  | standardMiss => exact replying.monitor rfl rfl
  | standardEnd => exact replying.monitor rfl rfl
  | known => exact replying.monitor rfl rfl
  | generated =>
      refine replying.monitor rfl ?_
      rw [posted_append]
      exact List.append_nil _
  | miss => exact replying.monitor rfl rfl
  | wildcardEnd => exact replying.monitor rfl rfl
  | announce => exact replying.monitor rfl (sendLine_monitor_silent m _)
  | message => exact replying.monitor rfl (sendLine_monitor_silent m _)

end Steps

theorem decimal_inj {n k : Nat} (same : decimal n = decimal k) : n = k := by
  rw [Json.decimal_eq, Json.decimal_eq] at same
  rw [← Decimal.value_digits n, same, Decimal.value_digits]

theorem generatedId_inj {n k : UInt64} (same : generatedId n = generatedId k) : n = k :=
  UInt64.toNat_inj.mp (decimal_inj (List.append_cancel_left same))

def counterIds (count : Nat) : List Bytes :=
  (List.range count).map fun k => generatedId (UInt64.ofNat (k + 1))

theorem counterIds_succ (count : Nat) :
    counterIds (count + 1) = counterIds count ++ [generatedId (UInt64.ofNat (count + 1))] := by
  rw [counterIds, List.range_succ, List.map_append]
  rfl

theorem counterIds_nodup {count : Nat} (most : count ≤ 2 ^ 64) : (counterIds count).Nodup := by
  apply List.Nodup.map_on _ List.nodup_range
  intro j inside k inside' same
  have counters := congrArg UInt64.toNat (generatedId_inj same)
  rw [UInt64.toNat_ofNat', UInt64.toNat_ofNat'] at counters
  rw [List.mem_range] at inside inside'
  omega

/-- The counter has been used for as many ids as were generated. -/
structure Numbered (m : Machine) : Prop where
  counter : m.session.nextSubId = UInt64.ofNat ((generations m.events).length + 1)
  ids : (generations m.events).map Prod.snd = counterIds (generations m.events).length
  owed : ∀ named, m.monitor.announcing = some named → named ∈ generations m.events
  posted : ∀ concrete subId, .xsubInfo concrete subId ∈ posted .monitor m.events →
    (concrete, subId) ∈ generations m.events

section Counter

variable {parse : Bytes → Except Exc Value} {port : UInt16} {m next : Machine}

theorem Numbered.keep (numbered : Numbered m)
    (counter : next.session.nextSubId = m.session.nextSubId)
    (same : generations next.events = generations m.events)
    (owed : ∀ named, next.monitor.announcing = some named → m.monitor.announcing = some named)
    (announced : ∀ concrete subId, .xsubInfo concrete subId ∈ Lacal.posted .monitor next.events →
      .xsubInfo concrete subId ∈ Lacal.posted .monitor m.events ∨
        m.monitor.announcing = some (concrete, subId)) : Numbered next where
  counter := by
    rw [counter, same]
    exact numbered.counter
  ids := by
    rw [same]
    exact numbered.ids
  owed := by
    intro named owes
    rw [same]
    exact numbered.owed named (owed named owes)
  posted := by
    intro concrete subId inside
    rw [same]
    rcases announced concrete subId inside with old | owes
    · exact numbered.posted concrete subId old
    · exact numbered.owed _ owes

theorem Numbered.quiet (numbered : Numbered m)
    (counter : next.session.nextSubId = m.session.nextSubId) {more : List Event}
    (events : next.events = m.events ++ more) (noIds : generations more = [])
    (owed : ∀ named, next.monitor.announcing = some named → m.monitor.announcing = some named)
    (silent : ∀ concrete subId, .xsubInfo concrete subId ∉ Lacal.posted .monitor more) :
    Numbered next := by
  apply numbered.keep counter _ owed
  · intro concrete subId inside
    rw [events, posted_append] at inside
    rcases List.mem_append.mp inside with old | new
    · exact .inl old
    · exact absurd new (silent concrete subId)
  · rw [events, generations_append, noIds, List.append_nil]

theorem Numbered.generated {sample : Sample} {xsub : XSub} {rest : List XSub}
    (numbered : Numbered m)
    (absent : m.session.concreteSubs.find (sample.concrete xsub.streamId).key = none) :
    Numbered { m with
      session := { m.session with
        concreteSubs := m.session.concreteSubs.add (sample.concrete xsub.streamId).key
          (generatedId m.session.nextSubId) absent
        nextSubId := m.session.nextSubId + 1 }
      monitor := .announce sample xsub.streamId (generatedId m.session.nextSubId) rest
      events := m.events ++
        [.generated (sample.concrete xsub.streamId) (generatedId m.session.nextSubId)] } := by
  have more : generations (m.events ++
      [.generated (sample.concrete xsub.streamId) (generatedId m.session.nextSubId)]) =
        generations m.events ++
          [(sample.concrete xsub.streamId, generatedId m.session.nextSubId)] :=
    generations_append _ _
  constructor
  · rw [more, List.length_append, List.length_singleton, UInt64.ofNat_add _ 1, ← numbered.counter]
    rfl
  · rw [more, List.map_append, List.length_append, List.length_singleton, counterIds_succ,
      numbered.ids, ← numbered.counter]
    rfl
  · intro named owes
    injection owes with owes
    rw [more, ← owes]
    exact List.mem_append_right _ (List.mem_singleton_self _)
  · intro concrete subId inside
    rw [posted_append] at inside
    rw [more]
    rcases List.mem_append.mp inside with old | new
    · exact List.mem_append_left _ (numbered.posted concrete subId old)
    · cases new

theorem sendLine_silent {line : Line} (other : ∀ concrete subId, line ≠ .xsubInfo concrete subId)
    (thread : Thread) (concrete : Concrete) (subId : Bytes) :
    .xsubInfo concrete subId ∉ posted .monitor
      (if m.session.isOpen then [.post thread line] else []) := by
  intro inside
  have member := mem_posted.mp inside
  cases isOpen : m.session.isOpen with
  | true =>
      rw [isOpen] at member
      injection List.mem_singleton.mp member with _ same
      exact other concrete subId same.symm
  | false =>
      rw [isOpen] at member
      cases member

theorem sendLine_noIds (thread : Thread) (line : Line) :
    generations (if m.session.isOpen then [.post thread line] else []) = [] := by
  cases m.session.isOpen with
  | true => rfl
  | false => rfl

theorem Numbered.step {label : Label} (numbered : Numbered m) (replying : Replying m)
    (moved : Moved parse port m label next) : Numbered next := by
  have none : ∀ concrete subId, .xsubInfo concrete subId ∉ Lacal.posted .monitor [] := by
    intro concrete subId inside
    cases inside
  cases moved with
  | line reading isOpen done =>
      rename_i payload handled
      have effect := handleLine_effect parse port m.session payload
      rw [done] at effect
      apply numbered.quiet effect.concreteSubs.2 rfl
      · cases handled.accepted with
        | true => rfl
        | false => rfl
      · exact fun _ owes => owes
      · cases handled.accepted with
        | true => exact none
        | false => exact none
  | post owes =>
      rename_i payload accepted line rest closes
      refine numbered.quiet rfl rfl (sendLine_noIds .io line) (fun _ owes => owes)
        (sendLine_silent ?_ .io)
      intro concrete subId same
      have polite := replying.owed _ _ _ _ owes
      rw [same] at polite
      cases polite
  | returned owes =>
      rename_i payload accepted closes
      refine numbered.quiet rfl rfl ?_ ?_ ?_
      · cases accepted with
        | true => rfl
        | false => rfl
      · exact fun _ owes => owes
      · cases accepted with
        | true => exact none
        | false => exact none
  | disconnect =>
      exact numbered.quiet rfl (List.append_nil _).symm rfl (fun _ owes => owes) none
  | arrive => exact numbered.quiet rfl (List.append_nil _).symm rfl nofun none
  | snapshot => exact numbered.quiet rfl (List.append_nil _).symm rfl nofun none
  | standardHit =>
      refine numbered.quiet rfl rfl (sendLine_noIds .monitor _) nofun (sendLine_silent ?_ .monitor)
      intro concrete subId same
      cases same
  | standardMiss => exact numbered.quiet rfl (List.append_nil _).symm rfl nofun none
  | standardEnd => exact numbered.quiet rfl (List.append_nil _).symm rfl nofun none
  | known => exact numbered.quiet rfl (List.append_nil _).symm rfl nofun none
  | generated looping hit absent => exact numbered.generated absent
  | miss => exact numbered.quiet rfl (List.append_nil _).symm rfl nofun none
  | wildcardEnd => exact numbered.quiet rfl (List.append_nil _).symm rfl nofun none
  | announce owed =>
      rename_i sample streamId subId rest
      refine numbered.keep rfl (sendLine_generations m _ _) nofun ?_
      intro concrete subId' inside
      change _ ∈ Lacal.posted .monitor (m.sendLine .monitor _).events at inside
      cases isOpen : m.session.isOpen with
      | true =>
          rw [sendLine_open isOpen, posted_append] at inside
          rcases List.mem_append.mp inside with old | new
          · exact .inl old
          · injection List.mem_singleton.mp new with first second
            rw [first, second, owed]
            exact .inr rfl
      | false =>
          rw [sendLine_closed isOpen] at inside
          exact .inl inside
  | message =>
      refine numbered.quiet rfl rfl (sendLine_noIds .monitor _) nofun (sendLine_silent ?_ .monitor)
      intro concrete subId same
      cases same

theorem Numbered.namedOnce (numbered : Numbered m)
    (few : (generations m.events).length ≤ 2 ^ 64) : NamedOnce (Lacal.posted .monitor m.events) := by
  intro subId concrete other first second
  have distinct : ((generations m.events).map Prod.snd).Nodup := by
    rw [numbered.ids]
    exact counterIds_nodup few
  have same := List.inj_on_of_nodup_map distinct (numbered.posted _ _ first)
    (numbered.posted _ _ second) rfl
  exact (Prod.mk.inj same).1

theorem NamedOnce.emitted {events : List Event} {lines : List (Thread × Line)}
    (order : Emitted events lines) (replies : (posted .io events).all Line.isReply = true)
    (once : NamedOnce (posted .monitor events)) : NamedOnce (lines.map Prod.snd) := by
  have monitor : ∀ concrete subId, .xsubInfo concrete subId ∈ lines.map Prod.snd →
      .xsubInfo concrete subId ∈ posted .monitor events := by
    intro concrete subId inside
    rcases List.mem_map.mp inside with ⟨⟨thread, line⟩, sent, same⟩
    have chosen : line ∈ linesOf thread lines := by
      rw [linesOf, List.mem_map]
      exact ⟨(thread, line), List.mem_filter.mpr ⟨sent, by simp⟩, rfl⟩
    have member := (order thread).subset chosen
    simp only at same
    rw [same] at member
    cases thread with
    | io => exact absurd (List.all_eq_true.mp replies _ member) Bool.false_ne_true
    | monitor => exact member
  intro subId concrete other first second
  exact once subId concrete other (monitor _ _ first) (monitor _ _ second)

end Counter

section Runs

variable {parse : Bytes → Except Exc Value} {port : UInt16}

structure Traced (m : Machine) : Prop where
  told : Told m
  replying : Replying m
  numbered : Numbered m

theorem traced_initial : Traced {} where
  told := by
    constructor
    · exact fun _ inside => nomatch inside
    · exact fun _ inside => nomatch inside
    · exact fun _ _ inside => nomatch inside
    · exact fun _ _ inside => nomatch inside
    · exact fun _ _ owes => nomatch owes
    · intro before concrete subId json here
      have short := here.length_le
      simp [posted] at short
  replying := ⟨nofun, rfl⟩
  numbered := ⟨rfl, rfl, nofun, fun _ _ inside => nomatch inside⟩

theorem traced {labels : List Label} {last : Machine}
    (reached : run (step parse port) {} labels = some last) : Traced last := by
  apply run_invariant _ traced_initial reached
  intro m label next kept taken
  have moved := step_moved taken
  exact ⟨kept.told.step moved, kept.replying.step moved, kept.numbered.step kept.replying moved⟩

/-- Wildcard traffic is announced first, and as long as the counter has not gone round an id
is announced for one thing only. -/
theorem wildcard_announced {labels : List Label} {last : Machine}
    (reached : run (step parse port) {} labels = some last) {lines : List (Thread × Line)}
    (order : Emitted last.events lines) :
    AnnouncedFirst (lines.map Prod.snd) ∧
      ((generations last.events).length ≤ 2 ^ 64 → NamedOnce (lines.map Prod.snd)) := by
  have kept := traced reached
  constructor
  · exact kept.told.first.emitted order kept.replying.sent
  · intro few
    exact (kept.numbered.namedOnce few).emitted order kept.replying.sent

end Runs

section Cycle

variable (parse : Bytes → Except Exc Value) (port : UInt16)

/-- A client that was greeted and has no `SUB`. -/
structure Standing (counter : UInt64) (xsubs : List XSub) (concretes : List (Bytes × Bytes))
    (s : Session) : Prop where
  isOpen : s.isOpen = true
  ready : s.initialized = true
  xsubs : s.xsubs = xsubs
  standardSubs : s.standardSubs.entries = []
  concreteSubs : s.concreteSubs.entries = concretes
  counter : s.nextSubId = counter

def subscribeLine (streamId : Bytes) : Bytes := utf8 "XSUB " ++ streamId ++ utf8 " *"

def unsubscribeLine (streamId : Bytes) : Bytes := utf8 "XUNSUB " ++ streamId

def allTopics (streamId : Bytes) : XSub := { streamId, topicPattern := utf8 "*" }

def twoStreams : List Bytes := [utf8 "bus", utf8 "nav"]

theorem twoStreams_fields : ∀ streamId ∈ twoStreams,
    firstField (subscribeLine streamId) = some (utf8 "XSUB", streamId ++ utf8 " *") ∧
      splitFields (streamId ++ utf8 " *") = [streamId, utf8 "*"] ∧
      firstField (unsubscribeLine streamId) = some (utf8 "XUNSUB", streamId) ∧
      splitFields streamId = [streamId] ∧ validToken streamId = true := by
  decide +kernel

theorem trackSample_matches_all (streamId : Bytes) :
    trackSample.matches (allTopics streamId) = true := by
  have hits := trackSample_matches (utf8 "*") (by decide)
  rw [allTopics, Sample.matches, hits.1, hits.2]
  rfl

theorem Standing.subscribe {counter : UInt64} {xsubs : List XSub} {concretes : List (Bytes × Bytes)}
    {s : Session} (standing : Standing counter xsubs concretes s) {streamId : Bytes}
    (known : streamId ∈ twoStreams) :
    Standing counter (xsubs ++ [allTopics streamId]) concretes
      (after parse port s [subscribeLine streamId]) := by
  rcases twoStreams_fields streamId known with ⟨subscribes, topics, _, _, valid⟩
  have received := @receive_xsub parse port s standing.isOpen standing.ready _ _ _ _ subscribes
    topics valid
  rw [after, List.foldl_cons, List.foldl_nil, received]
  constructor
  · exact standing.isOpen
  · exact standing.ready
  · simp only [Operation.apply, standing.xsubs]
    rfl
  · exact standing.standardSubs
  · exact standing.concreteSubs
  · exact standing.counter

theorem Standing.unsubscribe {counter : UInt64} {streamId key subId : Bytes} {s : Session}
    (standing : Standing counter [allTopics streamId] [(key, subId)] s)
    (known : streamId ∈ twoStreams) (ofStream : keyOfStream streamId key = true) :
    Standing counter [] [] (after parse port s [unsubscribeLine streamId]) := by
  rcases twoStreams_fields streamId known with ⟨_, _, unsubscribes, stream, valid⟩
  have received := @receive_xunsub parse port s standing.isOpen standing.ready _ _ _ unsubscribes
    stream valid
  rw [after, List.foldl_cons, List.foldl_nil, received]
  constructor
  · exact standing.isOpen
  · exact standing.ready
  · simp [Operation.apply, standing.xsubs, allTopics]
  · exact standing.standardSubs
  · simp [Operation.apply, Table.eraseIf, standing.concreteSubs, ofStream]
  · exact standing.counter

theorem deliverXSubs_new {sample : Sample} {s : Session} {xsub : XSub}
    (hit : sample.matches xsub = true)
    (absent : s.concreteSubs.find (sample.concrete xsub.streamId).key = none) :
    deliverXSubs sample s [xsub] =
      ({ s with
        concreteSubs := s.concreteSubs.add (sample.concrete xsub.streamId).key
          (generatedId s.nextSubId) absent
        nextSubId := s.nextSubId + 1 },
      [.xsubInfo (sample.concrete xsub.streamId) (generatedId s.nextSubId),
        .msg (some (sample.concrete xsub.streamId)) (generatedId s.nextSubId) sample.json]) := by
  have turn : deliverXSub sample s xsub = _ := if_pos hit
  simp only [ensure_new absent] at turn
  rw [deliverXSubs, turn]
  rfl

theorem Standing.deliver {counter : UInt64} {streamId : Bytes} {s : Session}
    (standing : Standing counter [allTopics streamId] [] s) :
    Standing (counter + 1) [allTopics streamId]
        [((trackSample.concrete streamId).key, generatedId counter)] (deliverTo trackSample s).1 ∧
      (deliverTo trackSample s).2 =
        [.xsubInfo (trackSample.concrete streamId) (generatedId counter),
          .msg (some (trackSample.concrete streamId)) (generatedId counter) trackSample.json] := by
  have absent : s.concreteSubs.find (trackSample.concrete streamId).key = none := by
    rw [Table.find_eq_none_iff, Table.keys, standing.concreteSubs]
    exact List.not_mem_nil
  have noStandard : s.standardSubs.values = [] := by
    rw [Table.values, standing.standardSubs]
    rfl
  have loop := congrArg (deliverXSubs trackSample s) standing.xsubs
  have sent : deliverTo trackSample s =
      ({ s with
        concreteSubs := s.concreteSubs.add (trackSample.concrete streamId).key
          (generatedId s.nextSubId) absent
        nextSubId := s.nextSubId + 1 },
      [.xsubInfo (trackSample.concrete streamId) (generatedId s.nextSubId),
        .msg (some (trackSample.concrete streamId)) (generatedId s.nextSubId) trackSample.json]) := by
    rw [deliverTo, loop, noStandard, deliverXSubs_new (trackSample_matches_all streamId) absent]
    rfl
  rw [sent]
  constructor
  · constructor
    · exact standing.isOpen
    · exact standing.ready
    · exact standing.xsubs
    · exact standing.standardSubs
    · rw [Table.add_entries, standing.concreteSubs, standing.counter]
    · rw [standing.counter]
  · rw [standing.counter]

theorem run_announcement {counter : UInt64} {m : Machine} (reading : m.io = .reading)
    (idle : m.monitor = .idle) (standing : Standing counter [] [] m.session) (streamId : Bytes)
    (known : streamId ∈ twoStreams) :
    ∃ next, Reaches (step parse port) m next ∧ next.io = .reading ∧ next.monitor = .idle ∧
      Standing (counter + 1) [allTopics streamId]
        [((trackSample.concrete streamId).key, generatedId counter)] next.session ∧
      m.events <+: next.events ∧
      .post .monitor (.xsubInfo (trackSample.concrete streamId) (generatedId counter)) ∈
        next.events ∧
      (generations next.events).length ≤ (generations m.events).length + 2 := by
  rcases run_commands parse port reading [subscribeLine streamId] with
    ⟨subscribed, first, session, stillReading, stillIdle, kept, noIds⟩
  have given := standing.subscribe parse port known
  rw [← session] at given
  rcases run_deliver parse port (stillIdle.trans idle) given.isOpen trackSample with
    ⟨last, second, delivered⟩
  have got := given.deliver
  refine ⟨last, first.trans second, delivered.io.trans stillReading, delivered.monitor, ?_,
    kept.trans delivered.kept, ?_, ?_⟩
  · rw [delivered.session]
    exact got.1
  · rw [← mem_posted, delivered.posted, got.2]
    exact List.mem_append_right _ List.mem_cons_self
  · have few := delivered.generated
    rw [noIds, got.2] at few
    exact few

/-- Subscribe to a stream, get a sample and unsubscribe again: it takes one id. -/
theorem run_cycle {counter : UInt64} {m : Machine} (reading : m.io = .reading)
    (idle : m.monitor = .idle) (standing : Standing counter [] [] m.session) (streamId : Bytes)
    (known : streamId ∈ twoStreams) :
    ∃ next, Reaches (step parse port) m next ∧ next.io = .reading ∧ next.monitor = .idle ∧
      Standing (counter + 1) [] [] next.session ∧ m.events <+: next.events ∧
      .post .monitor (.xsubInfo (trackSample.concrete streamId) (generatedId counter)) ∈
        next.events := by
  rcases run_announcement parse port reading idle standing streamId known with
    ⟨served, first, servedReading, servedIdle, given, kept, announced, _⟩
  rcases run_commands parse port servedReading [unsubscribeLine streamId] with
    ⟨last, second, session, lastReading, lastIdle, more, _⟩
  have ofStream : keyOfStream streamId (trackSample.concrete streamId).key = true := by
    simp [keyOfStream, Concrete.key, Sample.concrete]
  refine ⟨last, first.trans second, lastReading, lastIdle.trans servedIdle, ?_, kept.trans more,
    more.subset announced⟩
  rw [session]
  exact given.unsubscribe parse port known ofStream

theorem run_cycles {counter : UInt64} {m : Machine} (reading : m.io = .reading)
    (idle : m.monitor = .idle) (standing : Standing counter [] [] m.session) (streamId : Bytes)
    (known : streamId ∈ twoStreams) (count : Nat) :
    ∃ next, Reaches (step parse port) m next ∧ next.io = .reading ∧ next.monitor = .idle ∧
      Standing (counter + UInt64.ofNat count) [] [] next.session ∧ m.events <+: next.events := by
  induction count with
  | zero =>
      refine ⟨m, .refl m, reading, idle, ?_, List.prefix_rfl⟩
      exact (UInt64.add_zero counter).symm ▸ standing
  | succ count ih =>
      rcases ih with ⟨mid, first, midReading, midIdle, given, kept⟩
      rcases run_cycle parse port midReading midIdle given streamId known with
        ⟨last, second, lastReading, lastIdle, given, more, _⟩
      refine ⟨last, first.trans second, lastReading, lastIdle, ?_, kept.trans more⟩
      rw [UInt64.ofNat_add, ← UInt64.add_assoc]
      exact given

end Cycle

section Sample

def greetingLine : Bytes := utf8 "INIT " ++ initText

theorem greeted : Standing 1 [] [] (after sampleParse 8766 {} [greetingLine]) := by
  constructor
  · decide +kernel
  · decide +kernel
  · decide +kernel
  · decide +kernel
  · decide +kernel
  · decide +kernel

def Event.line : Event → Option (Thread × Line)
  | .post thread line => some (thread, line)
  | _ => none

theorem emitted_in_order (events : List Event) : Emitted events (events.filterMap Event.line) := by
  intro thread
  have same : linesOf thread (events.filterMap Event.line) = posted thread events := by
    induction events with
    | nil => rfl
    | cons event rest ih =>
        cases event with
        | post poster line =>
            unfold linesOf posted at ih ⊢
            by_cases own : poster = thread
            · simp [Event.line, Event.postedBy, own, ih]
            · simp [Event.line, Event.postedBy, own, ih]
        | handled payload => exact ih
        | returned payload => exact ih
        | generated concrete subId => exact ih
  exact ⟨[], by rw [List.append_nil, same]⟩

theorem run_track : ∃ labels last, run (step sampleParse 8766) {} labels = some last ∧
    .post .monitor (.xsubInfo (trackSample.concrete (utf8 "bus")) (utf8 "xsub.1")) ∈ last.events ∧
    (generations last.events).length ≤ 2 := by
  rcases run_commands sampleParse 8766 (m := {}) rfl [greetingLine] with
    ⟨idle, first, session, reading, noSample, _, noIds⟩
  have standing := greeted
  rw [← session] at standing
  rcases run_announcement sampleParse 8766 reading noSample standing (utf8 "bus") (by decide) with
    ⟨last, second, _, _, _, _, announced, few⟩
  rcases first.trans second with ⟨labels, reached⟩
  rw [noIds] at few
  exact ⟨labels, last, reached, announced, few⟩

theorem wildcard_announced_track : ∃ labels last,
    run (step sampleParse 8766) {} labels = some last ∧
      .post .monitor (.xsubInfo (trackSample.concrete (utf8 "bus")) (utf8 "xsub.1")) ∈ last.events ∧
      AnnouncedFirst ((last.events.filterMap Event.line).map Prod.snd) ∧
      NamedOnce ((last.events.filterMap Event.line).map Prod.snd) := by
  rcases run_track with ⟨labels, last, reached, announced, few⟩
  have both := wildcard_announced reached (emitted_in_order last.events)
  exact ⟨labels, last, reached, announced, both.1, both.2 (Nat.le_trans few (by decide))⟩

/-- After `2 ^ 64` ids the first one comes again, here for another stream. -/
theorem id_announced_twice : ∃ labels last lines,
    run (step sampleParse 8766) {} labels = some last ∧ Emitted last.events lines ∧
      ¬ NamedOnce (lines.map Prod.snd) := by
  rcases run_commands sampleParse 8766 (m := {}) rfl [greetingLine] with
    ⟨idle, greets, session, reading, noSample, _, _⟩
  have standing := greeted
  rw [← session] at standing
  rcases run_cycle sampleParse 8766 reading noSample standing (utf8 "bus") (by decide)
    with ⟨once, first, onceReading, onceIdle, onceStanding, _, onBus⟩
  rcases run_cycles sampleParse 8766 onceReading onceIdle onceStanding (utf8 "bus")
    (by decide) (2 ^ 64 - 1) with ⟨round, cycles, roundReading, roundIdle, roundStanding, kept⟩
  have counter : (1 : UInt64) + 1 + UInt64.ofNat (2 ^ 64 - 1) = 1 := by decide
  rw [counter] at roundStanding
  rcases run_announcement sampleParse 8766 roundReading roundIdle roundStanding
    (utf8 "nav") (by decide) with ⟨last, again, _, _, _, more, onNav, _⟩
  rcases greets.trans (first.trans (cycles.trans again)) with ⟨labels, reached⟩
  refine ⟨labels, last, last.events.filterMap Event.line, reached, emitted_in_order _, ?_⟩
  intro single
  have line : ∀ event ∈ last.events, ∀ thread line, event = .post thread line →
      line ∈ (last.events.filterMap Event.line).map Prod.snd := by
    intro event member thread line isPost
    rw [isPost] at member
    exact List.mem_map.mpr ⟨(thread, line), List.mem_filterMap.mpr ⟨_, member, rfl⟩, rfl⟩
  have same := single _ _ _ (line _ (more.subset (kept.subset onBus)) _ _ rfl)
    (line _ onNav _ _ rfl)
  exact absurd same (by decide)

end Sample

end Arcal.Lacal
