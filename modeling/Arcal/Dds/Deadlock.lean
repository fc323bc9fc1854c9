import Arcal.Dds.Locking

/-! When the listener locks deadlock. A removal that empties the list holds `mu_` and waits
for `cbMutex`; a delivery holds `cbMutex` and takes `mu_` for every sample it decodes. The
first `addListener` takes the locks in the removal's order, but nothing is being delivered
then. -/

namespace Arcal.Dds

open Schema Cdr Transition

variable {schema : SchemaModel} {Tid L : Type}

/-- Dispatching these samples gets to the listeners: the first that is not dropped decodes. -/
def decodesSome (cfg : ReaderConfig schema) : List CachedSample → Bool
  | [] => false
  | s :: pending =>
      match openSample cfg.bridge cfg.messageType s.sample with
      | .error _ => false
      | .ok none => decodesSome cfg pending
      | .ok (some _) => true

/-- The thread will take `mu_` (again) before it is done. -/
def Dispatching.willLock {M : Type} (cfg : ReaderConfig schema) : Dispatching L M → Bool
  | .next pending => decodesSome cfg pending
  | .callListener _ _ _ => true
  | .lockMu _ _ => true
  | .snapshot _ pending => decodesSome cfg pending
  | .callSnapshot _ _ pending => decodesSome cfg pending

def DispatchResult.willLock {M : Type} (cfg : ReaderConfig schema) : DispatchResult L M → Bool
  | .more at' => at'.willLock cfg
  | _ => false

def LoopPc.willLock {M : Type} (cfg : ReaderConfig schema) : LoopPc L M → Bool
  | .deliver at' => at'.willLock cfg
  | _ => false

/-- No removal empties the list while a delivery still has to take `mu_`, and no such
delivery starts while a removal that emptied the list waits for `cbMutex`. -/
def Calm [DecidableEq L] (cfg : ReaderConfig schema) (s : State Tid L (Accessor schema)) :
    Label Tid L → Prop
  | .app t =>
      match s.app t with
      | .removeErase listener =>
          s.shared.listeners.filter (· ≠ listener) = [] → s.loop.willLock cfg = false
      | _ => True
  | .background =>
      match s.loop with
      | .recheck samples =>
          s.shared.callback = true → decodesSome cfg samples = true →
            ∀ t listener, s.app t ≠ .removeLockCb listener
      | _ => True
  | _ => True

/-- Who waits for `cbMutex` with the list emptied does not face a delivery that wants `mu_`. -/
def State.Apart (cfg : ReaderConfig schema) (s : State Tid L (Accessor schema)) : Prop :=
  ∀ t listener, s.app t = .removeLockCb listener → s.loop.willLock cfg = false

variable {cfg : ReaderConfig schema}

theorem dispatchStep_willLock {self : Thread Tid} {callListener : Option L}
    {sh : Shared Tid L (Accessor schema)} {at' : Dispatching L (Accessor schema)}
    {moved : Shared Tid L (Accessor schema) × DispatchResult L (Accessor schema)}
    (run : dispatchStep cfg self callListener sh at' = some moved)
    (later : moved.2.willLock cfg = true) : at'.willLock cfg = true := by
  cases dispatchStep_move run with
  | finish => cases later
  | throw => cases later
  | drop s pending opened =>
      simp only [Dispatching.willLock, decodesSome, opened]
      exact later
  | toListener listener polled s pending msg opened =>
      simp only [Dispatching.willLock, decodesSome, opened]
  | toLock background s pending msg opened => simp only [Dispatching.willLock, decodesSome, opened]
  | call => rfl
  | lock => rfl
  | snapshot => exact later
  | snapshotDone => exact later
  | callSnapshot => exact later

variable [DecidableEq L] [DecidableEq Tid] {s next : State Tid L (Accessor schema)}
  {label : Label Tid L}

omit [DecidableEq Tid] in
theorem appStep_removeLockCb {t : Tid} {sh : Shared Tid L (Accessor schema)}
    {pc : AppPc L (Accessor schema)}
    {moved : Shared Tid L (Accessor schema) × AppPc L (Accessor schema)}
    (run : appStep cfg t sh pc = some moved) {listener : L}
    (waits : moved.2 = .removeLockCb listener) :
    pc = .removeErase listener ∧ sh.listeners.filter (· ≠ listener) = [] := by
  cases appStep_move run with
  | removeEraseLast erased last =>
      injection waits with same
      rw [← same]
      exact ⟨rfl, last⟩
  | readDispatch polled at' inner taken =>
      cases after : inner.2 <;> simp [after, AppPc.afterDispatch] at waits
  | _ => cases waits

theorem State.Apart.step (apart : s.Apart cfg) (calm : Calm cfg s label)
    (taken : step cfg s label = some next) : next.Apart cfg := by
  cases label with
  | arrive valid sample =>
      rw [step_arrive taken]
      exact apart
  | start t op =>
      obtain ⟨idle, same⟩ := step_start taken
      have starts := begin_starts s.shared op
      rw [same]
      intro other listener waits
      by_cases self : other = t
      · subst self
        rw [State.withApp_self] at waits
        rw [waits] at starts
        cases starts
      · rw [State.withApp_other _ _ self] at waits
        exact apart other listener waits
  | app t =>
      obtain ⟨moved, run, same⟩ := step_app taken
      rw [same]
      intro other listener waits
      by_cases self : other = t
      · subst self
        rw [State.withApp_self] at waits
        obtain ⟨erasing, last⟩ := appStep_removeLockCb run waits
        simp only [Calm, erasing] at calm
        exact calm last
      · rw [State.withApp_other _ _ self] at waits
        exact apart other listener waits
  | background =>
      obtain ⟨moved, run, same⟩ := step_background taken
      rw [same]
      intro t listener waits
      have before := apart t listener waits
      rw [State.withLoop_loop, Bool.eq_false_iff]
      intro locks
      have move := loopStep_move run
      generalize at' : s.loop = pc at move
      cases move with
      | deliver samples set =>
          simp only [Calm, at'] at calm
          exact calm set locks t listener waits
      | more dispatching sh' after inner =>
          have still := dispatchStep_willLock inner locks
          rw [at'] at before
          exact absurd still (Bool.eq_false_iff.mp before)
      | _ => cases locks

omit [DecidableEq L] [DecidableEq Tid] in
theorem State.Sound.not_deadlock (sound : s.Sound) (apart : s.Apart cfg) (t : Tid) :
    ¬ s.Deadlock t := by
  intro deadlock
  rcases deadlock with ⟨holds, waits, _, wants⟩ | ⟨holds, waits, _, _⟩
  · have inside : (s.app t).holdsMu = true := (sound.locked.mu (.app t)).mp holds
    have delivers : s.loop.delivers = true := by
      cases pc : s.loop <;> simp [pc, LoopPc.waitsMu, LoopPc.delivers] at wants ⊢
    have locks : s.loop.willLock cfg = true := by
      cases pc : s.loop with
      | deliver at' =>
          rw [pc] at wants
          cases at' <;> simp [LoopPc.waitsMu, Dispatching.waitsMu] at wants
          rfl
      | _ => simp [pc, LoopPc.waitsMu] at wants
    cases pc : s.app t with
    | addLockCb =>
        have resting := (sound.consistent.adding t (by rw [pc]; rfl)).2.2
        rw [delivers] at resting
        cases resting
    | removeLockCb listener =>
        rw [apart t listener pc] at locks
        cases locks
    | closeLockCb =>
        rw [pc] at inside
        cases inside
    | _ => simp [pc, AppPc.waitsCb] at waits
  · have inside : (s.app t).holdsCb = true := (sound.locked.cb (.app t)).mp holds
    cases pc : s.app t <;> simp [pc, AppPc.holdsCb, AppPc.waitsMu] at inside waits

def State.ReachesLock (cfg : ReaderConfig schema) (s : State Tid L (Accessor schema)) : Prop :=
  ∃ count last msg pending,
    run (step cfg) s (List.replicate count .background) = some last ∧ last.app = s.app ∧
      last.loop = .deliver (.lockMu msg pending)

theorem step_deliver {at' after : Dispatching L (Accessor schema)}
    {sh' : Shared Tid L (Accessor schema)} (running : s.shared.terminated = false)
    (delivers : s.loop = .deliver at')
    (inner : dispatchStep cfg .background none s.shared at' = some (sh', .more after)) :
    step cfg s .background = some (s.withLoop (sh', .deliver after)) := by
  simp [step, running, delivers, loopStep, inner]

theorem State.ReachesLock.before {sh' : Shared Tid L (Accessor schema)}
    {at' after : Dispatching L (Accessor schema)} (running : s.shared.terminated = false)
    (delivers : s.loop = .deliver at')
    (inner : dispatchStep cfg .background none s.shared at' = some (sh', .more after))
    (later : (s.withLoop (sh', .deliver after)).ReachesLock cfg) : s.ReachesLock cfg := by
  rcases later with ⟨count, last, msg, pending, whole, app, waits⟩
  refine ⟨count + 1, last, msg, pending, ?_, app, waits⟩
  rw [List.replicate_succ]
  exact run_cons_eq_some.mpr ⟨_, step_deliver running delivers inner, whole⟩

theorem reachesLock_next {pending : List CachedSample} (decodes : decodesSome cfg pending = true)
    (running : s.shared.terminated = false) (delivers : s.loop = .deliver (.next pending)) :
    s.ReachesLock cfg := by
  induction pending generalizing s with
  | nil => cases decodes
  | cons sample pending ih =>
      simp only [decodesSome] at decodes
      split at decodes
      · cases decodes
      · next opened =>
        have inner : dispatchStep cfg .background none s.shared (.next (sample :: pending)) =
            some ({ s.shared with handed := s.shared.handed ++ [sample] },
              .more (.next pending)) := by
          simp [dispatchStep, opened]
        apply State.ReachesLock.before running delivers inner
        exact ih decodes running rfl
      · next msg opened =>
        have inner : dispatchStep cfg .background none s.shared (.next (sample :: pending)) =
            some ({ s.shared with handed := s.shared.handed ++ [sample] },
              .more (.lockMu msg pending)) := by
          simp [dispatchStep, opened]
        apply State.ReachesLock.before running delivers inner
        exact ⟨0, _, msg, pending, rfl, rfl, rfl⟩

theorem reachesLock_callSnapshot {msg : Accessor schema} {snap : List L}
    {pending : List CachedSample} (decodes : decodesSome cfg pending = true)
    (running : s.shared.terminated = false)
    (delivers : s.loop = .deliver (.callSnapshot msg snap pending)) : s.ReachesLock cfg := by
  induction snap generalizing s with
  | nil =>
      apply State.ReachesLock.before running delivers rfl
      exact reachesLock_next decodes running rfl
  | cons listener snap ih =>
      apply State.ReachesLock.before running delivers rfl
      exact ih running rfl

/-- A removal that waits for `cbMutex` while a delivery still has to take `mu_` ends in a
deadlock. -/
theorem State.Sound.deadlock_ahead (sound : s.Sound) (running : s.shared.terminated = false)
    {t : Tid} {listener : L} (waits : s.app t = .removeLockCb listener)
    (locks : s.loop.willLock cfg = true) :
    ∃ more last, run (Dds.step cfg) s more = some last ∧ last.Deadlock t := by
  have inside : (s.app t).holdsMu = true := by rw [waits]; rfl
  have reaches : s.ReachesLock cfg := by
    cases pc : s.loop with
    | deliver at' =>
        rw [pc] at locks
        cases at' with
        | next pending => exact reachesLock_next locks running pc
        | callListener other msg pending =>
            apply State.ReachesLock.before running pc rfl
            exact ⟨0, _, msg, pending, rfl, rfl, rfl⟩
        | lockMu msg pending => exact ⟨0, s, msg, pending, rfl, rfl, pc⟩
        | snapshot msg pending =>
            have one : s.holdsMu (.app t) = true := inside
            have two : s.holdsMu .background = true := by rw [State.holdsMu, pc]; rfl
            cases sound.locked.mu.unique one two
        | callSnapshot msg snap pending => exact reachesLock_callSnapshot locks running pc
    | _ => rw [pc] at locks; cases locks
  rcases reaches with ⟨count, last, msg, pending, whole, app, wants⟩
  refine ⟨_, last, whole, .inl ?_⟩
  have soundLast : last.Sound :=
    run_invariant (fun _ _ _ sound taken => State.Sound.step sound taken) sound whole
  refine ⟨(soundLast.locked.mu (.app t)).mpr ?_, ?_,
    (soundLast.locked.cb .background).mpr ?_, ?_⟩
  · rw [State.holdsMu, app]
    exact inside
  · rw [app, waits]
    rfl
  · rw [State.holdsCb, wants]
    rfl
  · rw [wants]
    rfl

/-- A step that is not calm leaves a removal and a delivery facing each other. -/
theorem facing_of_not_calm (rough : ¬ Calm cfg s label) (taken : step cfg s label = some next) :
    next.shared.terminated = false ∧
      ∃ t listener, next.app t = .removeLockCb listener ∧ next.loop.willLock cfg = true := by
  have running : s.shared.terminated = false := by
    cases ended : s.shared.terminated with
    | false => rfl
    | true => simp [step, ended] at taken
  cases label with
  | arrive valid sample => exact absurd trivial rough
  | start t op => exact absurd trivial rough
  | app t =>
      obtain ⟨moved, ran, same⟩ := step_app taken
      cases pc : s.app t with
      | removeErase listener =>
          simp only [Calm, pc, Classical.not_imp, Bool.not_eq_false] at rough
          rw [pc] at ran
          injection ran with moved'
          rw [same, ← moved']
          refine ⟨running, t, listener, ?_, rough.2⟩
          rw [State.withApp_self]
          exact if_pos rough.1
      | _ => simp [Calm, pc] at rough
  | background =>
      obtain ⟨moved, ran, same⟩ := step_background taken
      cases pc : s.loop with
      | recheck samples =>
          simp only [Calm, pc, Classical.not_imp, not_forall, not_not] at rough
          rcases rough with ⟨set, decodes, t, listener, waits⟩
          rw [pc] at ran
          injection ran with moved'
          rw [same, ← moved']
          refine ⟨running, t, listener, waits, ?_⟩
          rw [State.withLoop_loop]
          simp only [set, if_true]
          exact decodes
      | _ => simp [Calm, pc] at rough

/-- When the locks deadlock. No run whose steps are all calm reaches a deadlock, and a run
that takes a step that is not calm can go on to one. -/
theorem deadlock_iff_not_calm (cfg : ReaderConfig schema) (labels : List (Label Tid L))
    (s : State Tid L (Accessor schema))
    (whole : run (step cfg) (State.initial (Accessor schema)) labels = some s) :
    (Along (step cfg) (Calm cfg) (State.initial (Accessor schema)) labels →
      ∀ t, ¬ s.Deadlock t) ∧
    ∀ label next, step cfg s label = some next → ¬ Calm cfg s label →
      ∃ more last t, run (step cfg) next more = some last ∧ last.Deadlock t := by
  have sound := State.sound_of_run whole
  constructor
  · intro calm
    have keeps : ∀ (s : State Tid L (Accessor schema)) label next, s.Apart cfg →
        Calm cfg s label → step cfg s label = some next → next.Apart cfg := by
      intro s label next apart calm taken
      exact apart.step calm taken
    apply sound.not_deadlock
    apply run_keeps keeps _ calm whole
    intro t listener waits
    cases waits
  · intro label next taken rough
    obtain ⟨running, t, listener, waits, locks⟩ := facing_of_not_calm rough taken
    obtain ⟨more, last, ahead, deadlock⟩ := (sound.step taken).deadlock_ahead running waits locks
    exact ⟨more, last, t, ahead, deadlock⟩

theorem calm_delivery {sample : CachedSample} {msg : Accessor schema} {listener : L}
    (running : s.shared.terminated = false) (free : s.shared.mu = none)
    (only : s.shared.listeners = [listener]) (delivers : s.loop = .deliver (.next [sample]))
    (opened : openSample cfg.bridge cfg.messageType sample.sample = .ok (some msg)) :
    ∃ last, run (step cfg) s (List.replicate 7 .background) = some last ∧
      Along (step cfg) (Calm cfg) s (List.replicate 7 .background) ∧
      last.shared.calls = s.shared.calls ++ [(.background, listener, msg)] := by
  have inner : dispatchStep cfg .background none s.shared (.next [sample]) =
      some ({ s.shared with handed := s.shared.handed ++ [sample] }, .more (.lockMu msg [])) := by
    simp [dispatchStep, opened]
  have first := step_deliver running delivers inner
  -- The other steps are computed, so the fields they read have to be constructors.
  rcases s with ⟨⟨mu, cbMutex, callback, listeners, closed, coreClosed, cache, arrivals,
    terminated, taken, handed, calls, removed⟩, app, loop⟩
  cases running
  cases free
  cases only
  cases delivers
  refine ⟨_, run_cons_eq_some.mpr ⟨_, first, rfl⟩, along_cons first trivial ?_, rfl⟩
  exact along_cons rfl trivial <| along_cons rfl trivial <| along_cons rfl trivial <|
    along_cons rfl trivial <| along_cons rfl trivial <| along_cons rfl trivial trivial

section Sample

/-- A listener is added; a header arrives and the background thread starts to deliver it. -/
def delivering : List (Label Unit Nat) :=
  [.start () (.addListener 0), .app (), .app (), .app (), .app (), .app (),
    .arrive true wholeHeader, .background, .background, .background, .background, .background,
    .background]

theorem deadlock_iff_not_calm_delivery :
    (∃ s, run (step (sampleReader 1 (by decide))) (State.initial (Accessor sampleSchema))
        (delivering ++ .background :: List.replicate 7 .background) = some s ∧
      s.shared.calls ≠ [] ∧ ¬ s.Deadlock ()) ∧
    ∃ more last t, run (step (sampleReader 1 (by decide))) (State.initial (Accessor sampleSchema))
        (delivering ++ [.background, .start () (.removeListener 0), .app ()] ++ .app () :: more) =
          some last ∧ last.Deadlock t := by
  obtain ⟨msg, opened⟩ := wholeHeader_opens 1 (by decide)
  constructor
  · obtain ⟨s, there, calm, running, free, only, none, delivers⟩ :
        ∃ s : State Unit Nat (Accessor sampleSchema),
          run (step (sampleReader 1 (by decide))) (State.initial (Accessor sampleSchema))
            (delivering ++ [.background]) = some s ∧
          Along (step (sampleReader 1 (by decide))) (Calm (sampleReader 1 (by decide)))
            (State.initial (Accessor sampleSchema)) (delivering ++ [.background]) ∧
          s.shared.terminated = false ∧ s.shared.mu = none ∧ s.shared.listeners = [0] ∧
          s.shared.calls = [] ∧ s.loop = .deliver (.next [⟨0, true, wholeHeader⟩]) := by
      refine ⟨_, rfl, ?_, rfl, rfl, rfl, rfl, rfl⟩
      iterate 13 refine along_cons rfl trivial ?_
      refine along_cons rfl ?_ trivial
      intro _ _ t listener waits
      cases waits
    obtain ⟨last, more, calmMore, called⟩ := calm_delivery running free only delivers opened
    have whole := (run_append there).trans more
    have along := calm.append there calmMore
    rw [List.append_assoc] at whole along
    refine ⟨last, whole, ?_, (deadlock_iff_not_calm _ _ last whole).1 along ()⟩
    rw [called]
    simp
  · obtain ⟨s, next, there, taken, erases, empties, delivers⟩ :
        ∃ s next : State Unit Nat (Accessor sampleSchema),
          run (step (sampleReader 1 (by decide))) (State.initial (Accessor sampleSchema))
            (delivering ++ [.background, .start () (.removeListener 0), .app ()]) = some s ∧
          step (sampleReader 1 (by decide)) s (.app ()) = some next ∧
          s.app () = .removeErase 0 ∧ s.shared.listeners.filter (· ≠ 0) = [] ∧
          s.loop = .deliver (.next [⟨0, true, wholeHeader⟩]) := ⟨_, _, rfl, rfl, rfl, rfl, rfl⟩
    have locks : s.loop.willLock (sampleReader 1 (by decide)) = true := by
      simp only [delivers, LoopPc.willLock, Dispatching.willLock, decodesSome, opened]
    have rough : ¬ Calm (sampleReader 1 (by decide)) s (.app ()) := by
      simp only [Calm, erases, locks]
      intro calm
      cases calm empties
    obtain ⟨more, last, t, ahead, deadlock⟩ :=
      (deadlock_iff_not_calm _ _ s there).2 (.app ()) next taken rough
    exact ⟨more, last, t, (run_append there).trans (run_cons_eq_some.mpr ⟨next, taken, ahead⟩),
      deadlock⟩

/-- The only listener is removed while the background thread is about to call it. -/
theorem removal_deadlocks :
    ∃ (labels : List (Label Unit Nat)) (s : State Unit Nat (Accessor sampleSchema)),
      run (step (sampleReader 1 (by decide))) (State.initial (Accessor sampleSchema)) labels =
          some s ∧ s.Deadlock () := by
  let removing := delivering ++ [.start () (.removeListener 0), .app (), .background, .app ()]
  obtain ⟨s, whole, waits, delivers, running⟩ : ∃ s : State Unit Nat (Accessor sampleSchema),
      run (step (sampleReader 1 (by decide))) (State.initial (Accessor sampleSchema)) removing =
          some s ∧ s.app () = .removeLockCb 0 ∧ s.loop = .deliver (.next [⟨0, true, wholeHeader⟩]) ∧
        s.shared.terminated = false := ⟨_, rfl, rfl, rfl, rfl⟩
  obtain ⟨msg, opened⟩ := wholeHeader_opens 1 (by decide)
  have locks : s.loop.willLock (sampleReader 1 (by decide)) = true := by
    simp only [delivers, LoopPc.willLock, Dispatching.willLock, decodesSome, opened]
  obtain ⟨more, last, ahead, deadlock⟩ :=
    (State.sound_of_run whole).deadlock_ahead running waits locks
  exact ⟨removing ++ more, last, (run_append whole).trans ahead, deadlock⟩

end Sample

end Arcal.Dds
