import Arcal.Dds.Locking

/-! `~DdsReader` against the background thread that still runs. The body takes the callback
back under `cbMutex`. Then the members go, the last one declared first: `listeners_` and
`mu_`, and at the end `core_`, whose `~Impl` sets `closed` and joins the thread. No other
application thread uses a reader that is being destroyed. -/

namespace Arcal.Dds

open Schema Cdr Transition

variable {schema : SchemaModel} {Tid L : Type}

inductive DestroyPc
  | lockCb
  | clearCallback
  | freeMembers
  | setClosed
  | join
  | done
  deriving DecidableEq, Repr

namespace DestroyPc

def cleared : DestroyPc → Bool
  | .lockCb | .clearCallback => false
  | _ => true

def freed : DestroyPc → Bool
  | .setClosed | .join | .done => true
  | _ => false

/-- `~Impl` has set `closed`. -/
def closing : DestroyPc → Bool
  | .join | .done => true
  | _ => false

end DestroyPc

/-- The next step of the loop locks `mu_`, or copies `listeners_` under it. -/
def LoopPc.usesMembers {M : Type} (pc : LoopPc L M) : Bool := pc.waitsMu || pc.holdsMu

structure Destroying (Tid L M : Type) where
  shared : Shared Tid L M
  loop : LoopPc L M
  pc : DestroyPc
  /-- a member was used when it was gone, or a mutex went while it was held -/
  undefined : Bool

/-- The destructor is called on a reader that no other thread uses. -/
def Destroying.start {M : Type} (s : State Tid L M) : Destroying Tid L M :=
  ⟨s.shared, s.loop, .lockCb, false⟩

/-- DDS with a new sample, the thread in the destructor, or the background thread. -/
inductive DestroyLabel
  | arrive (valid : Bool) (sample : TaggedSample)
  | destroyer
  | background

def DestroyLabel.isBackground : DestroyLabel → Bool
  | .background => true
  | _ => false

def destroyerStep (t : Tid) (d : Destroying Tid L (Accessor schema)) :
    Option (Destroying Tid L (Accessor schema)) :=
  match d.pc with
  | .lockCb =>
      (lockCbMutex (.app t) d.shared).map fun sh => { d with shared := sh, pc := .clearCallback }
  | .clearCallback => some { d with shared := storeCallback false d.shared, pc := .freeMembers }
  | .freeMembers => some { d with pc := .setClosed, undefined := d.undefined || d.shared.mu.isSome }
  | .setClosed => some { d with shared := { d.shared with coreClosed := true }, pc := .join }
  | .join =>
      match d.loop with
      | .exited => some { d with pc := .done, undefined := d.undefined || d.shared.cbMutex.isSome }
      | _ => none
  | .done => none

def Destroying.withLoop (d : Destroying Tid L (Accessor schema))
    (moved : Shared Tid L (Accessor schema) × LoopPc L (Accessor schema)) :
    Destroying Tid L (Accessor schema) :=
  { d with
    shared := moved.1
    loop := moved.2
    undefined := d.undefined || (d.pc.freed && d.loop.usesMembers) || d.pc == .done }

def destroyStep (cfg : ReaderConfig schema) (t : Tid)
    (d : Destroying Tid L (Accessor schema)) :
    DestroyLabel → Option (Destroying Tid L (Accessor schema)) := fun label =>
  if d.shared.terminated then none
  else
    match label with
    | .arrive valid sample =>
        if d.pc = .done then none
        else some { d with shared := arrive cfg valid sample d.shared }
    | .destroyer => destroyerStep t d
    | .background => (loopStep cfg d.shared d.loop).map d.withLoop

inductive DestroyMove (cfg : ReaderConfig schema) (t : Tid)
    (d : Destroying Tid L (Accessor schema)) :
    DestroyLabel → Destroying Tid L (Accessor schema) → Prop
  | arrive (valid : Bool) (sample : TaggedSample) (going : d.pc ≠ .done) :
      DestroyMove cfg t d (.arrive valid sample)
        { d with shared := Dds.arrive cfg valid sample d.shared }
  | lock (stands : d.pc = .lockCb) (free : d.shared.cbMutex = none) :
      DestroyMove cfg t d .destroyer
        { d with
          shared := { d.shared with cbMutex := some (.app t) }
          pc := .clearCallback }
  | clear (stands : d.pc = .clearCallback) :
      DestroyMove cfg t d .destroyer
        { d with shared := storeCallback false d.shared, pc := .freeMembers }
  | free (stands : d.pc = .freeMembers) :
      DestroyMove cfg t d .destroyer
        { d with pc := .setClosed, undefined := d.undefined || d.shared.mu.isSome }
  | close (stands : d.pc = .setClosed) :
      DestroyMove cfg t d .destroyer
        { d with shared := { d.shared with coreClosed := true }, pc := .join }
  | join (stands : d.pc = .join) (exited : d.loop = .exited) :
      DestroyMove cfg t d .destroyer
        { d with pc := .done, undefined := d.undefined || d.shared.cbMutex.isSome }
  | background (moved : Shared Tid L (Accessor schema) × LoopPc L (Accessor schema))
      (run : loopStep cfg d.shared d.loop = some moved) :
      DestroyMove cfg t d .background (d.withLoop moved)

variable {cfg : ReaderConfig schema} {t : Tid} {d next : Destroying Tid L (Accessor schema)}
  {label : DestroyLabel}

theorem destroyerStep_move (taken : destroyerStep t d = some next) :
    DestroyMove cfg t d .destroyer next := by
  unfold destroyerStep at taken
  cases stands : d.pc with
  | lockCb =>
      simp only [stands] at taken
      obtain ⟨locked, took, same⟩ := Option.map_eq_some_iff.mp taken
      obtain ⟨free, lockedEq⟩ := lockCbMutex_eq_some.mp took
      rw [← same, lockedEq]
      exact .lock stands free
  | clearCallback =>
      simp only [stands] at taken
      rw [← Option.some.inj taken]
      exact .clear stands
  | freeMembers =>
      simp only [stands] at taken
      rw [← Option.some.inj taken]
      exact .free stands
  | setClosed =>
      simp only [stands] at taken
      rw [← Option.some.inj taken]
      exact .close stands
  | join =>
      simp only [stands] at taken
      split at taken
      · next exited =>
        rw [← Option.some.inj taken]
        exact .join stands exited
      · cases taken
  | done =>
      simp only [stands] at taken
      cases taken

theorem destroyStep_move (taken : destroyStep cfg t d label = some next) :
    d.shared.terminated = false ∧ DestroyMove cfg t d label next := by
  unfold destroyStep at taken
  split at taken
  · cases taken
  · next alive =>
    refine ⟨Bool.eq_false_iff.mpr alive, ?_⟩
    cases label with
    | arrive valid sample =>
        simp only at taken
        split at taken
        · cases taken
        · next going =>
          rw [← Option.some.inj taken]
          exact .arrive valid sample going
    | destroyer => exact destroyerStep_move taken
    | background =>
        obtain ⟨moved, run, same⟩ := Option.map_eq_some_iff.mp taken
        rw [← same]
        exact .background moved run

theorem LoopPc.delivers_of_usesMembers {M : Type} {pc : LoopPc L M}
    (uses : pc.usesMembers = true) : pc.delivers = true := by
  cases pc <;> first | rfl | cases uses

theorem LoopPc.holdsCb_of_delivers {M : Type} {pc : LoopPc L M}
    (delivers : pc.delivers = true) : pc.holdsCb = true := by
  cases pc <;> first | rfl | cases delivers

theorem LoopPc.delivers_of_holdsMu {M : Type} {pc : LoopPc L M}
    (holds : pc.holdsMu = true) : pc.delivers = true := by
  cases pc <;> first | rfl | cases holds

variable [DecidableEq Tid]

def Destroying.holdsMu {M : Type} (d : Destroying Tid L M) : Thread Tid → Bool
  | .app _ => false
  | .background => d.loop.holdsMu

def Destroying.holdsCb {M : Type} (t : Tid) (d : Destroying Tid L M) : Thread Tid → Bool
  | .app other => other = t && d.pc = .clearCallback
  | .background => d.loop.holdsCb

/-- What holds all along a destruction. -/
structure Destroying.Safe {M : Type} (t : Tid) (d : Destroying Tid L M) : Prop where
  mu : Exclusive d.shared.mu d.holdsMu
  cb : Exclusive d.shared.cbMutex (d.holdsCb t)
  cleared : d.pc.cleared = true → d.shared.callback = false ∧ d.loop.delivers = false
  closing : d.pc.closing = true → d.shared.coreClosed = true
  joined : d.pc = .done → d.loop = .exited
  defined : d.undefined = false

namespace Destroying.Safe

omit [DecidableEq Tid] in
theorem start_holdsMu {M : Type} {s : State Tid L M} (idle : ∀ t, s.app t = .idle)
    (thread : Thread Tid) : (Destroying.start s).holdsMu thread = s.holdsMu thread := by
  cases thread with
  | app t => simp [Destroying.holdsMu, State.holdsMu, idle t, AppPc.holdsMu]
  | background => rfl

theorem start_holdsCb {M : Type} {s : State Tid L M} (idle : ∀ t, s.app t = .idle)
    (thread : Thread Tid) : (Destroying.start s).holdsCb t thread = s.holdsCb thread := by
  cases thread with
  | app t => simp [Destroying.start, Destroying.holdsCb, State.holdsCb, idle t, AppPc.holdsCb]
  | background => rfl

theorem start {M : Type} {s : State Tid L M} (locked : s.Locked) (idle : ∀ t, s.app t = .idle) :
    (Destroying.start s).Safe t where
  mu := by
    intro thread
    rw [start_holdsMu idle]
    exact locked.mu thread
  cb := by
    intro thread
    rw [start_holdsCb idle]
    exact locked.cb thread
  cleared := by
    intro cleared
    cases cleared
  closing := by
    intro closing
    cases closing
  joined := by
    intro done
    cases done
  defined := rfl

theorem not_delivers (safe : d.Safe t) (past : d.pc ≠ .lockCb) : d.loop.delivers = false := by
  cases delivers : d.loop.delivers with
  | false => rfl
  | true =>
      by_cases inside : d.pc = .clearCallback
      · have one : d.holdsCb t (.app t) = true := by simp [Destroying.holdsCb, inside]
        have two : d.holdsCb t .background = true := LoopPc.holdsCb_of_delivers delivers
        cases safe.cb.unique one two
      · have cleared : d.pc.cleared = true := by
          cases stands : d.pc <;> first | rfl | exact absurd stands past | exact absurd stands inside
        rw [(safe.cleared cleared).2] at delivers
        cases delivers

theorem cb_none (safe : d.Safe t) (outside : d.pc ≠ .clearCallback)
    (loop : d.loop.holdsCb = false) : d.shared.cbMutex = none := by
  cases held : d.shared.cbMutex with
  | none => rfl
  | some thread =>
      have inside := (safe.cb thread).mp held
      cases thread with
      | app other => simp [Destroying.holdsCb, outside] at inside
      | background =>
          rw [Destroying.holdsCb, loop] at inside
          cases inside

theorem mu_none (safe : d.Safe t) (past : d.pc ≠ .lockCb) : d.shared.mu = none := by
  cases held : d.shared.mu with
  | none => rfl
  | some thread =>
      have inside := (safe.mu thread).mp held
      cases thread with
      | app t => cases inside
      | background =>
          have delivers := LoopPc.delivers_of_holdsMu inside
          rw [safe.not_delivers past] at delivers
          cases delivers

omit [DecidableEq Tid] in
theorem mu_kept (mu : Exclusive d.shared.mu d.holdsMu) (same : next.shared.mu = d.shared.mu)
    (loop : next.loop = d.loop) : Exclusive next.shared.mu next.holdsMu := by
  have holds : next.holdsMu = d.holdsMu := by
    funext thread
    cases thread with
    | app other => rfl
    | background => simp [Destroying.holdsMu, loop]
  rw [same, holds]
  exact mu

theorem cb_moved (cb : Exclusive d.shared.cbMutex (d.holdsCb t)) (loop : next.loop = d.loop)
    (moved : LockMove (.app t) d.shared.cbMutex (decide (d.pc = .clearCallback))
      next.shared.cbMutex (decide (next.pc = .clearCallback))) :
    Exclusive next.shared.cbMutex (next.holdsCb t) := by
  apply cb.move (by simp [Destroying.holdsCb]) moved (by simp [Destroying.holdsCb])
  intro other differs
  cases other with
  | app other =>
      have apart : other ≠ t := fun same => differs (congrArg Thread.app same)
      simp [Destroying.holdsCb, apart]
  | background => simp [Destroying.holdsCb, loop]

omit [DecidableEq Tid] in
theorem loopStep_coreClosed {sh : Shared Tid L (Accessor schema)}
    {pc : LoopPc L (Accessor schema)}
    {moved : Shared Tid L (Accessor schema) × LoopPc L (Accessor schema)}
    (run : loopStep cfg sh pc = some moved) :
    moved.1.coreClosed = sh.coreClosed := by
  cases loopStep_move run with
  | more at' sh' after inner =>
      obtain ⟨mu, handed, calls, frame⟩ := dispatchStep_frame inner
      simp only at frame
      rw [frame]
  | done at' sh' inner =>
      obtain ⟨mu, handed, calls, frame⟩ := dispatchStep_frame inner
      simp only at frame
      rw [frame]
  | thrown at' sh' e inner =>
      obtain ⟨mu, handed, calls, frame⟩ := dispatchStep_frame inner
      simp only at frame
      rw [frame]
  | _ => rfl

theorem background (safe : d.Safe t)
    {moved : Shared Tid L (Accessor schema) × LoopPc L (Accessor schema)}
    (run : loopStep cfg d.shared d.loop = some moved) : (d.withLoop moved).Safe t := by
  obtain ⟨_, callback, _, delivers⟩ := loopStep_frame run
  have going : d.pc ≠ .done := by
    intro done
    rw [safe.joined done] at run
    cases run
  constructor
  · apply safe.mu.move rfl (loopStep_mu run) rfl
    intro other differs
    cases other with
    | app other => rfl
    | background => exact absurd rfl differs
  · apply safe.cb.move rfl (loopStep_cb run) rfl
    intro other differs
    cases other with
    | app other => rfl
    | background => exact absurd rfl differs
  · intro cleared
    obtain ⟨unset, resting⟩ := safe.cleared cleared
    refine ⟨callback.trans unset, ?_⟩
    rw [Bool.eq_false_iff]
    intro delivering
    rcases delivers delivering with set | before
    · rw [unset] at set
      cases set
    · rw [resting] at before
      cases before
  · intro closing
    exact (loopStep_coreClosed run).trans (safe.closing closing)
  · intro done
    exact absurd done going
  · have apart : (d.pc.freed && d.loop.usesMembers) = false := by
      rw [Bool.eq_false_iff]
      intro both
      obtain ⟨freed, uses⟩ := Bool.and_eq_true_iff.mp both
      have past : d.pc ≠ .lockCb := by
        intro stands
        rw [stands] at freed
        cases freed
      have resting := safe.not_delivers past
      rw [LoopPc.delivers_of_usesMembers uses] at resting
      cases resting
    simp [Destroying.withLoop, safe.defined, apart, going]

theorem step (safe : d.Safe t) (taken : destroyStep cfg t d label = some next) :
    next.Safe t := by
  cases (destroyStep_move taken).2 with
  | arrive valid sample going =>
      exact ⟨mu_kept safe.mu rfl rfl, safe.cb, safe.cleared, safe.closing, safe.joined,
        safe.defined⟩
  | lock stands free =>
      refine ⟨mu_kept safe.mu rfl rfl, ?_, ?_, ?_, ?_, safe.defined⟩
      · refine cb_moved safe.cb rfl ?_
        rw [free, stands]
        exact .lock
      · intro cleared
        cases cleared
      · intro closing
        cases closing
      · intro done
        cases done
  | clear stands =>
      have resting := safe.not_delivers (by simp [stands])
      refine ⟨mu_kept safe.mu rfl rfl, ?_, ?_, ?_, ?_, safe.defined⟩
      · refine cb_moved safe.cb rfl ?_
        rw [stands]
        exact .unlock _
      · intro _
        exact ⟨rfl, resting⟩
      · intro closing
        cases closing
      · intro done
        cases done
  | free stands =>
      have unlocked := safe.mu_none (by simp [stands])
      refine ⟨mu_kept safe.mu rfl rfl, ?_, ?_, ?_, ?_, ?_⟩
      · refine cb_moved safe.cb rfl ?_
        rw [stands]
        exact .stay _ _
      · intro _
        exact safe.cleared (by rw [stands]; rfl)
      · intro closing
        cases closing
      · intro done
        cases done
      · simp [safe.defined, unlocked]
  | close stands =>
      refine ⟨mu_kept safe.mu rfl rfl, ?_, ?_, ?_, ?_, safe.defined⟩
      · refine cb_moved safe.cb rfl ?_
        rw [stands]
        exact .stay _ _
      · intro _
        exact safe.cleared (by rw [stands]; rfl)
      · intro _
        rfl
      · intro done
        cases done
  | join stands exited =>
      have unlocked : d.shared.cbMutex = none := safe.cb_none (by simp [stands]) (by rw [exited]; rfl)
      refine ⟨mu_kept safe.mu rfl rfl, ?_, ?_, ?_, ?_, ?_⟩
      · refine cb_moved safe.cb rfl ?_
        rw [stands]
        exact .stay _ _
      · intro _
        exact safe.cleared (by rw [stands]; rfl)
      · intro _
        exact safe.closing (by rw [stands]; rfl)
      · intro _
        exact exited
      · simp [safe.defined, unlocked]
  | background moved run => exact safe.background run

theorem of_run {s : State Tid L (Accessor schema)} (locked : s.Locked)
    (idle : ∀ t, s.app t = .idle) {destruction : List DestroyLabel}
    (whole : run (destroyStep cfg t) (.start s) destruction = some d) : d.Safe t :=
  run_invariant (fun _ _ _ safe taken => safe.step taken) (start locked idle) whole

end Destroying.Safe

omit [DecidableEq Tid] in
theorem loopStep_resting {sh : Shared Tid L (Accessor schema)} {pc : LoopPc L (Accessor schema)}
    {moved : Shared Tid L (Accessor schema) × LoopPc L (Accessor schema)}
    (run : loopStep cfg sh pc = some moved) (resting : pc.delivers = false) :
    moved.1.calls = sh.calls := by
  cases loopStep_move run with
  | more => cases resting
  | done => cases resting
  | thrown => cases resting
  | _ => rfl

/-- Past the lock the destructor has the listeners for itself. -/
structure Destroying.Quiet (t : Tid) (calls : List (Thread Tid × L × Accessor schema))
    (listeners : List L) (d : Destroying Tid L (Accessor schema)) : Prop where
  safe : d.Safe t
  past : d.pc ≠ .lockCb
  calls : d.shared.calls = calls
  listeners : d.shared.listeners = listeners

theorem Destroying.Quiet.step {calls : List (Thread Tid × L × Accessor schema)}
    {listeners : List L} (quiet : d.Quiet t calls listeners)
    (taken : destroyStep cfg t d label = some next) : next.Quiet t calls listeners := by
  have safe := quiet.safe.step taken
  cases (destroyStep_move taken).2 with
  | arrive => exact ⟨safe, quiet.past, quiet.calls, quiet.listeners⟩
  | lock stands => exact absurd stands quiet.past
  | clear => exact ⟨safe, by simp, quiet.calls, quiet.listeners⟩
  | free => exact ⟨safe, by simp, quiet.calls, quiet.listeners⟩
  | close => exact ⟨safe, by simp, quiet.calls, quiet.listeners⟩
  | join => exact ⟨safe, by simp, quiet.calls, quiet.listeners⟩
  | background moved run =>
      have same := loopStep_resting run (quiet.safe.not_delivers quiet.past)
      exact ⟨safe, quiet.past, same.trans quiet.calls,
        (loopStep_frame run).1.trans quiet.listeners⟩

theorem Destroying.Safe.finished (safe : d.Safe t) (done : d.pc = .done) :
    destroyStep cfg t d label = none := by
  cases taken : destroyStep cfg t d label with
  | none => rfl
  | some next =>
      cases (destroyStep_move taken).2 with
      | arrive valid sample going => exact absurd done going
      | lock stands => simp [done] at stands
      | clear stands => simp [done] at stands
      | free stands => simp [done] at stands
      | close stands => simp [done] at stands
      | join stands => simp [done] at stands
      | background moved run =>
          rw [safe.joined done] at run
          cases run

variable [DecidableEq L]

/-- A reader that no other thread uses is destroyed soundly however the destructor, the
background thread and DDS interleave: no member is used when it is gone, no mutex goes while
it is held, no listener is called and the list does not change once the destructor has
`cbMutex`, and when the destructor returns the thread has left `loop` and nothing moves. -/
theorem destroy_safe {s : State Tid L (Accessor schema)} {last : Destroying Tid L (Accessor schema)}
    {labels : List (Label Tid L)} {destruction more : List DestroyLabel}
    (reached : run (Dds.step cfg) (State.initial (Accessor schema)) labels = some s)
    (idle : ∀ t, s.app t = .idle)
    (whole : run (destroyStep cfg t) (.start s) destruction = some d)
    (onwards : run (destroyStep cfg t) d more = some last) :
    d.undefined = false ∧
      (d.pc ≠ .lockCb → last.shared.calls = d.shared.calls ∧
        last.shared.listeners = d.shared.listeners ∧ last.shared.mu = none) ∧
      (d.pc = .done → d.loop = .exited ∧ more = []) := by
  have safe := Destroying.Safe.of_run (State.sound_of_run reached).locked idle whole
  refine ⟨safe.defined, ?_, ?_⟩
  · intro past
    have kept : last.Quiet t d.shared.calls d.shared.listeners :=
      run_invariant (fun _ _ _ quiet taken => quiet.step taken) ⟨safe, past, rfl, rfl⟩ onwards
    exact ⟨kept.calls, kept.listeners, kept.safe.mu_none kept.past⟩
  · intro done
    refine ⟨safe.joined done, ?_⟩
    cases more with
    | nil => rfl
    | cons label rest =>
        obtain ⟨next, taken, _⟩ := run_cons_eq_some.mp onwards
        rw [safe.finished done] at taken
        cases taken

def takenThenDestroyed : List (Label Unit Nat) :=
  [.start () (.addListener 7), .app (), .app (), .app (), .app (), .app (), .background,
    .background, .background, .arrive true wholeHeader, .background, .background]

def destroyedFirst : List DestroyLabel :=
  [.destroyer, .destroyer, .background, .destroyer, .background, .destroyer, .background,
    .background, .destroyer]

theorem destroy_safe_taken : ∃ (s : State Unit Nat (Accessor sampleSchema))
    (d : Destroying Unit Nat (Accessor sampleSchema)),
    run (Dds.step (sampleReader 1 (by decide))) (State.initial _) takenThenDestroyed = some s ∧
      run (destroyStep (sampleReader 1 (by decide)) ()) (.start s) destroyedFirst = some d ∧
      d.pc = .done ∧ d.undefined = false ∧ d.loop = .exited := by
  obtain ⟨s, d, reached, idle, whole, done⟩ : ∃ (s : State Unit Nat (Accessor sampleSchema))
      (d : Destroying Unit Nat (Accessor sampleSchema)),
      run (Dds.step (sampleReader 1 (by decide))) (State.initial _) takenThenDestroyed = some s ∧
        s.app () = .idle ∧
        run (destroyStep (sampleReader 1 (by decide)) ()) (.start s) destroyedFirst = some d ∧
        d.pc = .done := ⟨_, _, rfl, rfl, rfl, rfl⟩
  have stays : run (destroyStep (sampleReader 1 (by decide)) ()) d [] = some d := rfl
  obtain ⟨defined, _, finished⟩ := destroy_safe reached (fun _ => idle) whole stays
  exact ⟨s, d, reached, whole, done, defined, (finished done).1⟩

/-- How many steps of the loop are left once `closed` is set and the callback is gone. -/
def LoopPc.stepsLeft {M : Type} : LoopPc L M → Nat
  | .exited => 0
  | .top | .wait => 1
  | .copyCallback | .unlockDeliver => 2
  | .lockCopy | .recheck _ => 3
  | .lockDeliver _ => 4
  | .take => 5
  | .deliver _ => 0

omit [DecidableEq L] in
theorem LoopPc.stepsLeft_le {M : Type} (pc : LoopPc L M) : pc.stepsLeft ≤ 5 := by
  cases pc <;> simp [LoopPc.stepsLeft]

omit [DecidableEq L] [DecidableEq Tid] in
theorem loopStep_stepsLeft {sh : Shared Tid L (Accessor schema)}
    {pc : LoopPc L (Accessor schema)}
    {moved : Shared Tid L (Accessor schema) × LoopPc L (Accessor schema)}
    (run : loopStep cfg sh pc = some moved) (closed : sh.coreClosed = true)
    (unset : sh.callback = false) (resting : pc.delivers = false) :
    moved.2.stepsLeft + 1 ≤ pc.stepsLeft := by
  cases loopStep_move run with
  | quit _ polls => rcases polls with rfl | rfl <;> simp [LoopPc.stepsLeft]
  | top goes => simp [closed] at goes
  | copied set => simp [unset] at set
  | wait goes => simp [closed] at goes
  | deliver samples set => simp [unset] at set
  | more => cases resting
  | done => cases resting
  | thrown => cases resting
  | _ => simp [LoopPc.stepsLeft]

omit [DecidableEq L] in
/-- The thread that is joined never has to wait for a lock. -/
theorem Destroying.Safe.loop_moves (safe : d.Safe t) (joining : d.pc = .join)
    (going : d.loop ≠ .exited) : ∃ moved, loopStep cfg d.shared d.loop = some moved := by
  have free : d.loop.holdsCb = false → d.shared.cbMutex = none :=
    safe.cb_none (by simp [joining])
  have resting := safe.not_delivers (by simp [joining])
  cases stands : d.loop with
  | top => exact ⟨_, rfl⟩
  | lockCopy =>
      have unlocked := free (by rw [stands]; rfl)
      have takes : lockCbMutex .background d.shared = some _ :=
        lockCbMutex_eq_some.mpr ⟨unlocked, rfl⟩
      exact ⟨_, by rw [loopStep, takes]; rfl⟩
  | copyCallback => exact ⟨_, rfl⟩
  | wait => exact ⟨_, rfl⟩
  | take => exact ⟨_, rfl⟩
  | lockDeliver samples =>
      have unlocked := free (by rw [stands]; rfl)
      have takes : lockCbMutex .background d.shared = some _ :=
        lockCbMutex_eq_some.mpr ⟨unlocked, rfl⟩
      exact ⟨_, by rw [loopStep, takes]; rfl⟩
  | recheck samples => exact ⟨_, rfl⟩
  | deliver at' => simp [stands, LoopPc.delivers] at resting
  | unlockDeliver => exact ⟨_, rfl⟩
  | exited => exact absurd stands going

structure Destroying.Closing (t : Tid) (d : Destroying Tid L (Accessor schema)) : Prop where
  safe : d.Safe t
  closing : d.pc.closing = true

namespace Destroying.Closing

omit [DecidableEq L] in
theorem step (closing : d.Closing t) (taken : destroyStep cfg t d label = some next) :
    next.Closing t ∧
      next.loop.stepsLeft + (if label.isBackground then 1 else 0) ≤ d.loop.stepsLeft := by
  have safe := closing.safe.step taken
  have closed := closing.closing
  cases (destroyStep_move taken).2 with
  | arrive => exact ⟨⟨safe, closed⟩, Nat.le_refl _⟩
  | lock stands => simp [stands, DestroyPc.closing] at closed
  | clear stands => simp [stands, DestroyPc.closing] at closed
  | free stands => simp [stands, DestroyPc.closing] at closed
  | close stands => simp [stands, DestroyPc.closing] at closed
  | join => exact ⟨⟨safe, rfl⟩, Nat.le_refl _⟩
  | background moved run =>
      have cleared : d.pc.cleared = true := by
        cases stands : d.pc <;> first | rfl | simp [stands, DestroyPc.closing] at closed
      obtain ⟨unset, resting⟩ := closing.safe.cleared cleared
      have set := closing.safe.closing closed
      exact ⟨⟨safe, closed⟩, loopStep_stepsLeft run set unset resting⟩

omit [DecidableEq L] in
theorem background_le (closing : d.Closing t) {last : Destroying Tid L (Accessor schema)}
    {more : List DestroyLabel} (onwards : run (destroyStep cfg t) d more = some last) :
    more.countP DestroyLabel.isBackground ≤ 5 := by
  have bound := run_marked_le (fun d => d.loop.stepsLeft) DestroyLabel.isBackground
    (fun _ _ _ closing taken => (closing.step taken).1)
    (fun _ _ _ closing taken => (closing.step taken).2) closing onwards
  have start := LoopPc.stepsLeft_le d.loop
  omega

end Destroying.Closing

section Ends

variable (cfg t)

/-- The destructor has returned, or an exception in the loop has ended the process. -/
def Destroying.Ended {M : Type} (d : Destroying Tid L M) : Prop :=
  d.pc = .done ∨ d.shared.terminated = true

def CanEnd (d : Destroying Tid L (Accessor schema)) : Prop :=
  ∃ last, Reaches (destroyStep cfg t) d last ∧ last.Ended

variable {cfg t}

omit [DecidableEq Tid] [DecidableEq L] in
theorem CanEnd.of_reaches (reaches : Reaches (destroyStep cfg t) d next)
    (more : CanEnd cfg t next) : CanEnd cfg t d := by
  obtain ⟨last, onwards, ended⟩ := more
  exact ⟨last, reaches.trans onwards, ended⟩

omit [DecidableEq Tid] [DecidableEq L] in
theorem CanEnd.after (taken : destroyStep cfg t d label = some next) (more : CanEnd cfg t next) :
    CanEnd cfg t d := more.of_reaches (.of_step taken)

omit [DecidableEq Tid] [DecidableEq L] in
theorem destroyer_moves (alive : d.shared.terminated = false)
    (moves : destroyerStep t d = some next) : destroyStep cfg t d .destroyer = some next := by
  simp [destroyStep, alive, moves]

omit [DecidableEq Tid] [DecidableEq L] in
theorem background_moves (alive : d.shared.terminated = false)
    {moved : Shared Tid L (Accessor schema) × LoopPc L (Accessor schema)}
    (moves : loopStep cfg d.shared d.loop = some moved) :
    destroyStep cfg t d .background = some (d.withLoop moved) := by
  simp [destroyStep, alive, moves]

omit [DecidableEq Tid] [DecidableEq L] in
theorem CanEnd.of_alive (goes : d.shared.terminated = false → CanEnd cfg t d) :
    CanEnd cfg t d := by
  cases alive : d.shared.terminated with
  | true => exact ⟨d, .refl d, .inr alive⟩
  | false => exact goes alive

omit [DecidableEq L] in
theorem Destroying.Safe.join_ends (safe : d.Safe t) (joining : d.pc = .join) :
    CanEnd cfg t d := by
  induction left : d.loop.stepsLeft using Nat.strongRecOn generalizing d with
  | ind left' ih =>
      apply CanEnd.of_alive
      intro alive
      by_cases exited : d.loop = .exited
      · have joins : destroyerStep t d =
            some { d with
              pc := .done
              undefined := d.undefined || d.shared.cbMutex.isSome } := by
          simp [destroyerStep, joining, exited]
        exact ⟨_, .of_step (destroyer_moves alive joins), .inl rfl⟩
      · have moves : ∃ moved, loopStep cfg d.shared d.loop = some moved :=
          safe.loop_moves joining exited
        obtain ⟨moved, run⟩ := moves
        have taken : destroyStep cfg t d .background = some _ := background_moves alive run
        have closing : d.Closing t := ⟨safe, by rw [joining]; rfl⟩
        have fewer := (closing.step taken).2
        refine .after taken (ih _ ?_ (safe.step taken) joining rfl)
        simp only [DestroyLabel.isBackground, if_true] at fewer
        omega

omit [DecidableEq L] in
theorem Destroying.Safe.setClosed_ends (safe : d.Safe t) (stands : d.pc = .setClosed) :
    CanEnd cfg t d := by
  apply CanEnd.of_alive
  intro alive
  have sets : destroyerStep t d =
      some { d with shared := { d.shared with coreClosed := true }, pc := .join } := by
    simp [destroyerStep, stands]
  have taken : destroyStep cfg t d .destroyer = some _ := destroyer_moves alive sets
  exact .after taken ((safe.step taken).join_ends rfl)

omit [DecidableEq L] in
theorem Destroying.Safe.freeMembers_ends (safe : d.Safe t) (stands : d.pc = .freeMembers) :
    CanEnd cfg t d := by
  apply CanEnd.of_alive
  intro alive
  have frees : destroyerStep t d =
      some { d with pc := .setClosed, undefined := d.undefined || d.shared.mu.isSome } := by
    simp [destroyerStep, stands]
  have taken : destroyStep cfg t d .destroyer = some _ := destroyer_moves alive frees
  exact .after taken ((safe.step taken).setClosed_ends rfl)

omit [DecidableEq L] in
theorem Destroying.Safe.clearCallback_ends (safe : d.Safe t) (stands : d.pc = .clearCallback) :
    CanEnd cfg t d := by
  apply CanEnd.of_alive
  intro alive
  have clears : destroyerStep t d =
      some { d with shared := storeCallback false d.shared, pc := .freeMembers } := by
    simp [destroyerStep, stands]
  have taken : destroyStep cfg t d .destroyer = some _ := destroyer_moves alive clears
  exact .after taken ((safe.step taken).freeMembers_ends rfl)

omit [DecidableEq L] in
theorem Destroying.Safe.free_ends (safe : d.Safe t) (stands : d.pc = .lockCb)
    (free : d.shared.cbMutex = none) : CanEnd cfg t d := by
  apply CanEnd.of_alive
  intro alive
  have takes : lockCbMutex (.app t) d.shared = some _ := lockCbMutex_eq_some.mpr ⟨free, rfl⟩
  have locks : destroyerStep t d =
      some { d with
        shared := { d.shared with cbMutex := some (.app t) }
        pc := .clearCallback } := by
    simp [destroyerStep, stands, takes]
  have taken : destroyStep cfg t d .destroyer = some _ := destroyer_moves alive locks
  exact .after taken ((safe.step taken).clearCallback_ends rfl)

/-- Where the loop goes on after a step inside `callback(std::move(samples))`. -/
def LoopPc.afterDeliver {M : Type} :
    Shared Tid L M × DispatchResult L M → Shared Tid L M × LoopPc L M
  | (sh, .more at') => (sh, .deliver at')
  | (sh, .done) => (sh, .unlockDeliver)
  | (sh, .thrown _) => ({ sh with cbMutex := none, terminated := true }, .exited)

omit [DecidableEq Tid] [DecidableEq L] in
theorem loopStep_deliver (sh : Shared Tid L (Accessor schema))
    (at' : Dispatching L (Accessor schema)) :
    loopStep cfg sh (.deliver at') =
      (dispatchStep cfg .background none sh at').map LoopPc.afterDeliver := by
  cases moved : dispatchStep cfg .background none sh at' with
  | none => simp only [loopStep, moved, Option.map_none]
  | some result =>
      obtain ⟨sh', result⟩ := result
      simp only [loopStep, moved, Option.map_some]
      cases result <;> rfl

/-- The place of a destruction whose loop is somewhere in a delivery. -/
def Destroying.delivering (d : Destroying Tid L (Accessor schema))
    (at' : Shared Tid L (Accessor schema) × DispatchResult L (Accessor schema)) :
    Destroying Tid L (Accessor schema) :=
  { d with shared := (LoopPc.afterDeliver at').1, loop := (LoopPc.afterDeliver at').2 }

omit [DecidableEq Tid] [DecidableEq L] in
theorem delivering_reaches (stands : d.pc = .lockCb)
    {first last : Shared Tid L (Accessor schema) × DispatchResult L (Accessor schema)}
    (alone : Reaches (dispatchAlone cfg .background none) first last)
    (alive : first.1.terminated = false) :
    Reaches (destroyStep cfg t) (d.delivering first) (d.delivering last) := by
  obtain ⟨steps, whole⟩ := alone
  induction steps generalizing first with
  | nil =>
      injection whole with same
      rw [same]
      exact .refl _
  | cons label rest ih =>
      obtain ⟨mid, taken, more⟩ := run_cons_eq_some.mp whole
      obtain ⟨sh, result⟩ := first
      cases result with
      | more at' =>
          have inner : dispatchStep cfg .background none sh at' = some mid := taken
          obtain ⟨mu, handed, calls, frame⟩ := dispatchStep_frame inner
          have moves : loopStep cfg (d.delivering (sh, .more at')).shared
              (d.delivering (sh, .more at')).loop = some (LoopPc.afterDeliver mid) := by
            simp only [Destroying.delivering, LoopPc.afterDeliver, loopStep_deliver, inner,
              Option.map_some]
          have lands : (d.delivering (sh, .more at')).withLoop (LoopPc.afterDeliver mid) =
              d.delivering mid := by
            simp [Destroying.withLoop, Destroying.delivering, stands, DestroyPc.freed]
          have goes : destroyStep cfg t (d.delivering (sh, .more at')) .background = some _ :=
            background_moves alive moves
          rw [lands] at goes
          refine (Reaches.of_step goes).trans (ih ?_ more)
          rw [frame]
          exact alive
      | done => cases taken
      | thrown e => cases taken

omit [DecidableEq Tid] [DecidableEq L] in
theorem alone_out_of_next {self : Thread Tid} {callListener : Option L}
    {first : Shared Tid L (Accessor schema) × DispatchResult L (Accessor schema)}
    {sh : Shared Tid L (Accessor schema)} {pending : List CachedSample}
    (comes : Reaches (dispatchAlone cfg self callListener) first (sh, .more (.next pending)))
    (free : sh.mu = none) :
    ∃ last, Reaches (dispatchAlone cfg self callListener) first last ∧
      ∀ at', last.2 ≠ .more at' := by
  obtain ⟨last, reaches, _, ends⟩ := alone_batch cfg self callListener sh free pending
  refine ⟨last, comes.trans reaches, ?_⟩
  rw [ends, Delivery.end']
  split <;> simp

omit [DecidableEq Tid] [DecidableEq L] in
/-- Wherever a thread that nobody disturbs is in its dispatch loop, it gets out of it. -/
theorem alone_gets_out (cfg : ReaderConfig schema) (self : Thread Tid) (callListener : Option L)
    (sh : Shared Tid L (Accessor schema)) (at' : Dispatching L (Accessor schema))
    (free : at'.holdsMu = false → sh.mu = none) :
    ∃ last, Reaches (dispatchAlone cfg self callListener) (sh, .more at') last ∧
      ∀ at', last.2 ≠ .more at' := by
  cases at' with
  | next pending => exact alone_out_of_next (.refl _) (free rfl)
  | callListener listener msg pending =>
      have calls : Reaches (dispatchAlone cfg self callListener)
          (sh, .more (.callListener listener msg pending)) _ :=
        alone_step cfg self callListener rfl
      have locks := alone_lockMu cfg self callListener
        { sh with calls := sh.calls ++ [(self, listener, msg)] } (free rfl) msg pending
      exact alone_out_of_next (calls.trans locks) (free rfl)
  | lockMu msg pending =>
      exact alone_out_of_next (alone_lockMu cfg self callListener sh (free rfl) msg pending)
        (free rfl)
  | snapshot msg pending =>
      have copies : Reaches (dispatchAlone cfg self callListener)
          (sh, .more (.snapshot msg pending)) _ :=
        alone_step cfg self callListener rfl
      have calls := alone_callSnapshot cfg self callListener { sh with mu := none } msg
        sh.listeners pending
      exact alone_out_of_next (copies.trans calls) rfl
  | callSnapshot msg snap pending =>
      exact alone_out_of_next (alone_callSnapshot cfg self callListener sh msg snap pending)
        (free rfl)

omit [DecidableEq L] in
theorem Destroying.Safe.unlockDeliver_ends (safe : d.Safe t) (stands : d.pc = .lockCb)
    (loop : d.loop = .unlockDeliver) : CanEnd cfg t d := by
  apply CanEnd.of_alive
  intro alive
  have unlocks : loopStep cfg d.shared d.loop = some ({ d.shared with cbMutex := none }, .top) := by
    rw [loop]
    rfl
  have taken : destroyStep cfg t d .background = some _ := background_moves alive unlocks
  exact .after taken ((safe.step taken).free_ends stands rfl)

omit [DecidableEq L] in
theorem Destroying.Safe.deliver_ends (safe : d.Safe t) (stands : d.pc = .lockCb)
    {at' : Dispatching L (Accessor schema)} (loop : d.loop = .deliver at') :
    CanEnd cfg t d := by
  apply CanEnd.of_alive
  intro alive
  have free : at'.holdsMu = false → d.shared.mu = none := by
    intro outside
    cases held : d.shared.mu with
    | none => rfl
    | some thread =>
        have inside := (safe.mu thread).mp held
        cases thread with
        | app other => cases inside
        | background => simp [Destroying.holdsMu, loop, LoopPc.holdsMu, outside] at inside
  obtain ⟨last, alone, out⟩ := alone_gets_out cfg .background none d.shared at' free
  have here : d.delivering (d.shared, .more at') = d := by
    rw [Destroying.delivering, LoopPc.afterDeliver, ← loop]
  have goes := delivering_reaches (t := t) stands alone alive
  rw [here] at goes
  refine .of_reaches goes ?_
  obtain ⟨labels, whole⟩ := goes
  have safe' := run_invariant (fun _ _ _ safe taken => Safe.step safe taken) safe whole
  obtain ⟨sh, result⟩ := last
  cases result with
  | more at'' => exact absurd rfl (out at'')
  | done => exact safe'.unlockDeliver_ends stands rfl
  | thrown e => exact ⟨_, .refl _, .inr rfl⟩

omit [DecidableEq L] in
theorem Destroying.Safe.lockCb_ends (safe : d.Safe t) (stands : d.pc = .lockCb) :
    CanEnd cfg t d := by
  apply CanEnd.of_alive
  intro alive
  cases loop : d.loop with
  | copyCallback =>
      have unlocks : loopStep cfg d.shared d.loop =
          some ({ d.shared with cbMutex := none }, if d.shared.callback then .wait else .top) := by
        rw [loop]
        rfl
      have taken : destroyStep cfg t d .background = some _ := background_moves alive unlocks
      exact .after taken ((safe.step taken).free_ends stands rfl)
  | recheck samples =>
      by_cases set : d.shared.callback = true
      · have delivers : loopStep cfg d.shared d.loop =
            some (d.shared, .deliver (.next samples)) := by
          rw [loop]
          simp only [loopStep, if_pos set]
        have taken : destroyStep cfg t d .background = some _ := background_moves alive delivers
        exact .after taken ((safe.step taken).deliver_ends stands rfl)
      · have givesUp : loopStep cfg d.shared d.loop = some (d.shared, .unlockDeliver) := by
          rw [loop]
          simp only [loopStep, if_neg set]
        have taken : destroyStep cfg t d .background = some _ := background_moves alive givesUp
        exact .after taken ((safe.step taken).unlockDeliver_ends stands rfl)
  | deliver at' => exact safe.deliver_ends stands loop
  | unlockDeliver => exact safe.unlockDeliver_ends stands loop
  | _ =>
      apply safe.free_ends stands
      apply safe.cb_none (by simp [stands])
      rw [loop]
      rfl

end Ends

/-- A destruction never hangs: from whatever state it has come to, the destructor can still
return (or a sample that does not decode ends the process), and once it joins the thread the
loop takes at most five more steps, whatever arrives. -/
theorem destroy_ends {s : State Tid L (Accessor schema)}
    {labels : List (Label Tid L)} {destruction : List DestroyLabel}
    (reached : run (Dds.step cfg) (State.initial (Accessor schema)) labels = some s)
    (idle : ∀ t, s.app t = .idle)
    (whole : run (destroyStep cfg t) (.start s) destruction = some d) :
    (∃ last, Reaches (destroyStep cfg t) d last ∧
        (last.pc = .done ∨ last.shared.terminated = true)) ∧
      (d.pc = .join → ∀ more last, run (destroyStep cfg t) d more = some last →
        more.countP DestroyLabel.isBackground ≤ 5) := by
  have safe := Destroying.Safe.of_run (State.sound_of_run reached).locked idle whole
  constructor
  · cases stands : d.pc with
    | lockCb => exact safe.lockCb_ends stands
    | clearCallback => exact safe.clearCallback_ends stands
    | freeMembers => exact safe.freeMembers_ends stands
    | setClosed => exact safe.setClosed_ends stands
    | join => exact safe.join_ends stands
    | done => exact ⟨d, .refl d, .inl stands⟩
  · intro joining more last onwards
    have closing : d.Closing t := ⟨safe, by rw [joining]; rfl⟩
    exact closing.background_le onwards

theorem destroy_ends_taken : ∃ (s : State Unit Nat (Accessor sampleSchema))
    (d : Destroying Unit Nat (Accessor sampleSchema)),
    run (Dds.step (sampleReader 1 (by decide))) (State.initial _) takenThenDestroyed = some s ∧
      run (destroyStep (sampleReader 1 (by decide)) ()) (.start s) (destroyedFirst.take 6) =
        some d ∧
      d.pc = .join ∧ d.loop = .unlockDeliver ∧
      ∃ last, Reaches (destroyStep (sampleReader 1 (by decide)) ()) d last ∧
        (last.pc = .done ∨ last.shared.terminated = true) := by
  obtain ⟨s, d, reached, idle, whole, joins, loop⟩ : ∃ (s : State Unit Nat (Accessor sampleSchema))
      (d : Destroying Unit Nat (Accessor sampleSchema)),
      run (Dds.step (sampleReader 1 (by decide))) (State.initial _) takenThenDestroyed = some s ∧
        s.app () = .idle ∧
        run (destroyStep (sampleReader 1 (by decide)) ()) (.start s) (destroyedFirst.take 6) =
          some d ∧
        d.pc = .join ∧ d.loop = .unlockDeliver := ⟨_, _, rfl, rfl, rfl, rfl, rfl⟩
  exact ⟨s, d, reached, whole, joins, loop, (destroy_ends reached (fun _ => idle) whole).1⟩

end Arcal.Dds
