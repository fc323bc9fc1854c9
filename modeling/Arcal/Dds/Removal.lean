import Arcal.Dds.Locking

/-! What `removeListener` promises. A delivery calls a copy of the listener list that it
made before; only the removal that empties the list waits for the delivery to end. -/

namespace Arcal.Dds

open Schema Cdr Transition

variable {schema : SchemaModel} {Tid L : Type}

/-- The listeners the thread has still to call before it looks at the list again. -/
def Dispatching.ahead {M : Type} : Dispatching L M → List L
  | .callListener listener _ _ => [listener]
  | .callSnapshot _ snap _ => snap
  | _ => []

def DispatchResult.ahead {M : Type} : DispatchResult L M → List L
  | .more at' => at'.ahead
  | _ => []

def LoopPc.ahead {M : Type} : LoopPc L M → List L
  | .deliver at' => at'.ahead
  | _ => []

/-- The listener a removal has erased and not yet returned from. -/
def AppPc.removing {M : Type} : AppPc L M → Option L
  | .removeLockCb listener | .removeClearCallback listener | .removeUnlock listener =>
      some listener
  | _ => none

/-- A removal that leaves other listeners returns only when the background thread has no
call of its listener ahead. -/
def Settled (s : State Tid L (Accessor schema)) : Label Tid L → Prop
  | .app t =>
      match s.app t with
      | .removeUnlock listener => s.shared.listeners = [] ∨ listener ∉ s.loop.ahead
      | _ => True
  | _ => True

/-- The background step from `s` to `next` calls `handleMessage` of the listener. -/
def BackgroundCalls (cfg : ReaderConfig schema) [DecidableEq L] [DecidableEq Tid]
    (s : State Tid L (Accessor schema)) (listener : L) : Prop :=
  ∃ next msg, step cfg s .background = some next ∧
    next.shared.calls = s.shared.calls ++ [(.background, listener, msg)]

/-- A removed listener is in no list that somebody will call. -/
structure State.Gone {M : Type} (s : State Tid L M) : Prop where
  listed : ∀ listener ∈ s.shared.removed, listener ∉ s.shared.listeners
  leaving : ∀ t listener, (s.app t).removing = some listener → listener ∉ s.shared.listeners
  ahead : ∀ listener ∈ s.shared.removed, listener ∉ s.loop.ahead

variable {cfg : ReaderConfig schema}

section Moves

variable {self : Thread Tid} {sh : Shared Tid L (Accessor schema)}

theorem dispatchStep_ahead {at' : Dispatching L (Accessor schema)}
    {moved : Shared Tid L (Accessor schema) × DispatchResult L (Accessor schema)}
    (run : dispatchStep cfg self none sh at' = some moved) {listener : L}
    (later : listener ∈ moved.2.ahead) : listener ∈ at'.ahead ∨ listener ∈ sh.listeners := by
  cases dispatchStep_move run with
  | toListener other polled => cases polled
  | snapshot msg pending => exact .inr later
  | callSnapshot other msg snap pending => exact .inl (List.mem_cons_of_mem _ later)
  | _ => cases later

theorem loopStep_ahead {pc : LoopPc L (Accessor schema)}
    {moved : Shared Tid L (Accessor schema) × LoopPc L (Accessor schema)}
    (run : loopStep cfg sh pc = some moved) {listener : L}
    (later : listener ∈ moved.2.ahead) : listener ∈ pc.ahead ∨ listener ∈ sh.listeners := by
  cases loopStep_move run with
  | more at' sh' after inner => exact dispatchStep_ahead inner later
  | _ => cases later

theorem dispatchStep_calls {callListener : Option L} {at' : Dispatching L (Accessor schema)}
    {moved : Shared Tid L (Accessor schema) × DispatchResult L (Accessor schema)}
    (run : dispatchStep cfg self callListener sh at' = some moved) :
    moved.1.calls = sh.calls ∨
      ∃ listener msg, moved.1.calls = sh.calls ++ [(self, listener, msg)] ∧
        listener ∈ at'.ahead := by
  cases dispatchStep_move run with
  | call listener msg pending => exact .inr ⟨listener, msg, rfl, List.mem_singleton.mpr rfl⟩
  | callSnapshot listener msg snap pending => exact .inr ⟨listener, msg, rfl, List.mem_cons_self⟩
  | _ => exact .inl rfl

theorem loopStep_calls {pc : LoopPc L (Accessor schema)}
    {moved : Shared Tid L (Accessor schema) × LoopPc L (Accessor schema)}
    (run : loopStep cfg sh pc = some moved) :
    moved.1.calls = sh.calls ∨
      ∃ listener msg, moved.1.calls = sh.calls ++ [(.background, listener, msg)] ∧
        listener ∈ pc.ahead := by
  cases loopStep_move run with
  | more at' sh' after inner => exact dispatchStep_calls inner
  | done at' sh' inner => exact dispatchStep_calls inner
  | thrown at' sh' e inner => exact dispatchStep_calls inner
  | _ => exact .inl rfl

end Moves

variable [DecidableEq L] [DecidableEq Tid] {s next : State Tid L (Accessor schema)}
  {label : Label Tid L}

omit [DecidableEq L] in
theorem State.Gone.quiet (gone : s.Gone) {t : Tid}
    {moved : Shared Tid L (Accessor schema) × AppPc L (Accessor schema)}
    (listeners : moved.1.listeners = s.shared.listeners)
    (removed : moved.1.removed = s.shared.removed)
    (removing : ∀ listener, moved.2.removing = some listener →
      (s.app t).removing = some listener) : (s.withApp t moved).Gone := by
  constructor
  · rw [State.withApp_shared, listeners, removed]
    exact gone.listed
  · intro other listener leaving
    rw [State.withApp_shared, listeners]
    by_cases self : other = t
    · subst self
      rw [State.withApp_self] at leaving
      exact gone.leaving other listener (removing listener leaving)
    · rw [State.withApp_other _ _ self] at leaving
      exact gone.leaving other listener leaving
  · rw [State.withApp_shared, removed]
    exact gone.ahead

omit [DecidableEq L] in
theorem State.Gone.inside (locked : s.Locked) {t : Tid} (holds : (s.app t).holdsMu = true)
    {moved : Shared Tid L (Accessor schema) × AppPc L (Accessor schema)}
    (listed : ∀ listener ∈ moved.1.removed, listener ∉ moved.1.listeners)
    (leaving : ∀ listener, moved.2.removing = some listener → listener ∉ moved.1.listeners)
    (ahead : ∀ listener ∈ moved.1.removed, listener ∉ s.loop.ahead) :
    (s.withApp t moved).Gone := by
  refine ⟨listed, ?_, ahead⟩
  intro other listener removing
  by_cases self : other = t
  · subst self
    rw [State.withApp_self] at removing
    exact leaving listener removing
  · rw [State.withApp_other _ _ self] at removing
    have inside : (s.app other).holdsMu = true := by
      cases pc : s.app other <;> simp [pc, AppPc.removing] at removing <;> rfl
    exact absurd (locked.alone holds inside) self

omit [DecidableEq L] [DecidableEq Tid] in
/-- The removal that emptied the list has waited for the delivery to end. -/
theorem State.Sound.ahead_of_emptied (sound : s.Sound) {t : Tid} {listener : L}
    (leaves : s.app t = .removeUnlock listener) (empty : s.shared.listeners = []) :
    s.loop.ahead = [] := by
  have resting : s.loop.delivers = false := by
    rw [Bool.eq_false_iff]
    intro delivers
    obtain ⟨other, clearing⟩ := sound.consistent.called (.inr delivers) empty
    have holds : (s.app t).holdsMu = true := by rw [leaves]; rfl
    have self := sound.locked.alone holds (AppPc.holdsMu_of_clearsNext clearing)
    rw [self, leaves] at clearing
    cases clearing
  cases pc : s.loop with
  | deliver at' =>
      rw [pc] at resting
      cases resting
  | _ => rfl

theorem State.Gone.app (gone : s.Gone) (sound : s.Sound) {t : Tid}
    (settled : Settled s (.app t))
    {moved : Shared Tid L (Accessor schema) × AppPc L (Accessor schema)}
    (ran : appStep cfg t s.shared (s.app t) = some moved) : (s.withApp t moved).Gone := by
  have move := appStep_move ran
  generalize at' : s.app t = pc at move
  have readded : ∀ listener other, other ∈ s.shared.removed.filter (· ≠ listener) →
      other ≠ listener ∧ other ∈ s.shared.removed := by
    intro listener other member
    rw [List.mem_filter] at member
    exact ⟨by simpa using member.2, member.1⟩
  cases move with
  | addPushFirst listener first =>
      apply State.Gone.inside sound.locked (by rw [at']; rfl)
      · intro other member listed
        exact (readded listener other member).1 (List.mem_singleton.mp listed)
      · intro other removing
        cases removing
      · intro other member
        exact gone.ahead other (readded listener other member).2
  | addPushMore listener more =>
      apply State.Gone.inside sound.locked (by rw [at']; rfl)
      · intro other member listed
        obtain ⟨differs, before⟩ := readded listener other member
        rcases List.mem_append.mp listed with old | new
        · exact gone.listed other before old
        · exact differs (List.mem_singleton.mp new)
      · intro other removing
        cases removing
      · intro other member
        exact gone.ahead other (readded listener other member).2
  | removeEraseLast listener last =>
      apply State.Gone.inside sound.locked (by rw [at']; rfl)
      · intro other _ listed
        cases listed
      · intro other _ listed
        cases listed
      · exact gone.ahead
  | removeEraseMore listener more =>
      apply State.Gone.inside sound.locked (by rw [at']; rfl)
      · intro other member listed
        exact gone.listed other member (List.mem_of_mem_filter listed)
      · intro other removing listed
        injection removing with same
        rw [same] at listed
        simp at listed
      · exact gone.ahead
  | removeUnlock listener =>
      have erased := gone.leaving t listener (by rw [at']; rfl)
      apply State.Gone.inside sound.locked (by rw [at']; rfl)
      · intro other member
        rcases List.mem_cons.mp member with rfl | before
        · exact erased
        · exact gone.listed other before
      · intro other removing
        cases removing
      · intro other member
        rcases List.mem_cons.mp member with rfl | before
        · simp only [Settled, at'] at settled
          rcases settled with empty | clear
          · rw [sound.ahead_of_emptied at' empty]
            exact List.not_mem_nil
          · exact clear
        · exact gone.ahead other before
  | removeLockCb listener => exact gone.quiet rfl rfl (by simp [at', AppPc.removing])
  | removeClearCallback listener => exact gone.quiet rfl rfl (by simp [at', AppPc.removing])
  | readDispatch listener dispatching inner taken =>
      obtain ⟨mu, handed, calls, frame⟩ := dispatchStep_frame taken
      apply gone.quiet
      · rw [frame]
      · rw [frame]
      · cases inner.2 <;> simp [AppPc.afterDispatch, AppPc.removing]
  | _ => exact gone.quiet rfl rfl (by simp [AppPc.removing])

theorem State.Gone.step (gone : s.Gone) (sound : s.Sound) (settled : Settled s label)
    (taken : step cfg s label = some next) : next.Gone := by
  cases label with
  | arrive valid sample =>
      rw [step_arrive taken]
      exact ⟨gone.listed, gone.leaving, gone.ahead⟩
  | start t op =>
      obtain ⟨idle, same⟩ := step_start taken
      obtain ⟨closed, frame⟩ := begin_frame s.shared op
      have starts := begin_starts s.shared op
      rw [same]
      apply gone.quiet
      · rw [frame]
      · rw [frame]
      · intro listener removing
        cases pc : (begin s.shared op).2 <;> simp [pc, AppPc.removing] at removing <;>
          (rw [pc] at starts; cases starts)
  | app t =>
      obtain ⟨moved, ran, same⟩ := step_app taken
      rw [same]
      exact gone.app sound settled ran
  | background =>
      obtain ⟨moved, ran, same⟩ := step_background taken
      obtain ⟨listeners, _, removed, _⟩ := loopStep_frame ran
      rw [same]
      constructor
      · rw [State.withLoop_shared, listeners, removed]
        exact gone.listed
      · rw [State.withLoop_shared, listeners]
        exact gone.leaving
      · rw [State.withLoop_shared, removed]
        intro listener member later
        rcases loopStep_ahead ran later with before | listed
        · exact gone.ahead listener member before
        · exact gone.listed listener member listed

theorem State.Gone.not_called (gone : s.Gone) {listener : L}
    (called : BackgroundCalls cfg s listener) : listener ∉ s.shared.removed := by
  rcases called with ⟨next, msg, taken, grown⟩
  obtain ⟨moved, ran, same⟩ := step_background taken
  rw [same, State.withLoop_shared] at grown
  intro member
  rcases loopStep_calls ran with none' | ⟨other, msg', one, before⟩
  · rw [none'] at grown
    exact absurd grown (by simp)
  · have entry := List.append_cancel_left (one.symm.trans grown)
    injection entry with entry _
    injection entry with _ entry
    injection entry with other' _
    rw [other'] at before
    exact gone.ahead listener member before

theorem step_callSnapshot {msg : Accessor schema} {listener : L} {snap : List L}
    {pending : List CachedSample} (running : s.shared.terminated = false)
    (delivers : s.loop = .deliver (.callSnapshot msg (listener :: snap) pending)) :
    step cfg s .background = some (s.withLoop
      ({ s.shared with calls := s.shared.calls ++ [(.background, listener, msg)] },
        .deliver (.callSnapshot msg snap pending))) := by
  simp [step, running, delivers, loopStep, dispatchStep]

theorem call_ahead {msg : Accessor schema} {snap : List L} {pending : List CachedSample}
    (running : s.shared.terminated = false)
    (delivers : s.loop = .deliver (.callSnapshot msg snap pending)) {listener : L}
    (ahead : listener ∈ snap) (removed : listener ∈ s.shared.removed) :
    ∃ more last, run (step cfg) s more = some last ∧ listener ∈ last.shared.removed ∧
      BackgroundCalls cfg last listener := by
  induction snap generalizing s with
  | nil => cases ahead
  | cons first snap ih =>
      obtain ⟨after, taken, delivers', running', removed'⟩ :
          ∃ after : State Tid L (Accessor schema), step cfg s .background = some after ∧
            after.loop = .deliver (.callSnapshot msg snap pending) ∧
            after.shared.terminated = false ∧ listener ∈ after.shared.removed :=
        ⟨_, step_callSnapshot running delivers, rfl, running, removed⟩
      by_cases here : listener = first
      · subst here
        exact ⟨[], s, rfl, removed, _, msg, step_callSnapshot running delivers, rfl⟩
      · have later : listener ∈ snap := (List.mem_cons.mp ahead).resolve_left here
        obtain ⟨more, last, whole, still, called⟩ := ih running' delivers' later removed'
        exact ⟨.background :: more, last, run_cons_eq_some.mpr ⟨after, taken, whole⟩, still,
          called⟩

theorem State.calls_what_is_ahead (running : s.shared.terminated = false) {listener : L}
    (ahead : listener ∈ s.loop.ahead) (removed : listener ∈ s.shared.removed) :
    ∃ more last, run (step cfg) s more = some last ∧ listener ∈ last.shared.removed ∧
      BackgroundCalls cfg last listener := by
  cases pc : s.loop with
  | deliver at' =>
      rw [pc] at ahead
      cases at' with
      | callListener other msg pending =>
          rw [List.mem_singleton.mp ahead] at removed ⊢
          have taken : step cfg s .background = some (s.withLoop
              ({ s.shared with calls := s.shared.calls ++ [(.background, other, msg)] },
                .deliver (.lockMu msg pending))) := by
            simp [step, running, pc, loopStep, dispatchStep]
          exact ⟨[], s, rfl, removed, _, msg, taken, rfl⟩
      | callSnapshot msg snap pending => exact call_ahead running pc ahead removed
      | _ => cases ahead
  | _ =>
      rw [pc] at ahead
      cases ahead

/-- When a removed listener is called. In a run in which every removal that leaves other
listeners returns settled, the background thread never calls a listener whose removal has
returned; after a return that is not settled it goes on to do so. -/
theorem removed_called_iff_not_settled (cfg : ReaderConfig schema) (labels : List (Label Tid L))
    (s : State Tid L (Accessor schema))
    (whole : run (step cfg) (State.initial (Accessor schema)) labels = some s) :
    (Along (step cfg) Settled (State.initial (Accessor schema)) labels →
      ∀ listener, BackgroundCalls cfg s listener → listener ∉ s.shared.removed) ∧
    ∀ label next, step cfg s label = some next → ¬ Settled s label →
      ∃ more last listener, run (step cfg) next more = some last ∧
        listener ∈ last.shared.removed ∧ BackgroundCalls cfg last listener := by
  constructor
  · intro settled listener called
    have keeps : ∀ (s : State Tid L (Accessor schema)) label next, s.Sound ∧ s.Gone →
        Settled s label → step cfg s label = some next → next.Sound ∧ next.Gone := by
      intro s label next both settled taken
      exact ⟨both.1.step taken, both.2.step both.1 settled taken⟩
    have start : (State.initial (Accessor schema) : State Tid L (Accessor schema)).Gone := by
      constructor <;> simp [State.initial, AppPc.removing]
    have reached := run_keeps keeps ⟨State.sound_initial _, start⟩ settled whole
    exact reached.2.not_called called
  · intro label next taken unsettled
    cases label with
    | app t =>
        obtain ⟨moved, ran, same⟩ := step_app taken
        cases pc : s.app t with
        | removeUnlock listener =>
            simp only [Settled, pc, not_or, not_not] at unsettled
            rw [pc] at ran
            injection ran with moved'
            have running : s.shared.terminated = false := by
              cases ended : s.shared.terminated with
              | false => rfl
              | true => simp [step, ended] at taken
            have running' : next.shared.terminated = false := by rw [same, ← moved']; exact running
            have ahead : listener ∈ next.loop.ahead := by rw [same]; exact unsettled.2
            have removed : listener ∈ next.shared.removed := by
              rw [same, ← moved']
              exact List.mem_cons_self
            obtain ⟨more, last, further, still, called⟩ :=
              State.calls_what_is_ahead running' ahead removed
            exact ⟨more, last, listener, further, still, called⟩
        | _ => simp [Settled, pc] at unsettled
    | _ => exact absurd trivial unsettled

section Sample

theorem reaches_deliver (cfg : ReaderConfig schema) {sample : CachedSample} {pending : List CachedSample}
    (running : s.shared.terminated = false) (top : s.loop = .top)
    (goes : s.shared.coreClosed = false) (free : s.shared.cbMutex = none)
    (set : s.shared.callback = true) (arrived : takeLoop 0 [] s.shared.cache = sample :: pending) :
    ∃ last, run (step cfg) s (List.replicate 7 .background) = some last ∧
      last.loop = .deliver (.next (sample :: pending)) ∧ last.app = s.app ∧
      last.shared.listeners = s.shared.listeners ∧ last.shared.mu = s.shared.mu ∧
      last.shared.terminated = false := by
  simp [List.replicate, run, step, running, loopStep, top, goes, lockCbMutex, free, set, arrived,
    takeCache, State.withLoop]

theorem reaches_callSnapshot (cfg : ReaderConfig schema) {sample : CachedSample} {pending : List CachedSample}
    {msg : Accessor schema} (running : s.shared.terminated = false)
    (delivers : s.loop = .deliver (.next (sample :: pending)))
    (opened : openSample cfg.bridge cfg.messageType sample.sample = .ok (some msg))
    (free : s.shared.mu = none) :
    ∃ last, run (step cfg) s [.background, .background, .background] = some last ∧
      last.loop = .deliver (.callSnapshot msg s.shared.listeners pending) ∧ last.app = s.app ∧
      last.shared.listeners = s.shared.listeners ∧ last.shared.mu = none ∧
      last.shared.terminated = false := by
  simp [run, step, running, loopStep, delivers, dispatchStep, opened, lockMu, free,
    State.withLoop]

/-- A removal that leaves other listeners waits for nobody but `mu_`. -/
theorem removeListener_returns (cfg : ReaderConfig schema) {t : Tid} {listener : L}
    (running : s.shared.terminated = false) (idle : s.app t = .idle)
    (free : s.shared.mu = none) {other : L} (listed : other ∈ s.shared.listeners)
    (differs : other ≠ listener) :
    ∃ last, run (step cfg) s [.start t (.removeListener listener), .app t, .app t, .app t] =
        some last ∧ last.loop = s.loop ∧ listener ∈ last.shared.removed ∧
      last.shared.terminated = false := by
  have others : ¬ ∀ other ∈ s.shared.listeners, other = listener :=
    fun all => differs (all other listed)
  simp [run, step, running, idle, appStep, begin, lockMu, free, others, State.withApp]

def twoListeners : List (Label Unit Nat) :=
  [.start () (.addListener 0), .app (), .app (), .app (), .app (), .app (),
    .start () (.addListener 1), .app (), .app (), .app (), .arrive true wholeHeader]

def addedAndRemoved : List (Label Unit Nat) :=
  [.start () (.addListener 0), .app (), .app (), .app (), .app (), .app (),
    .start () (.removeListener 0), .app (), .app (), .app (), .app (), .app ()]

theorem removed_called_iff_not_settled_removing :
    ∃ s, run (step (sampleReader 1 (by decide))) (State.initial (Accessor sampleSchema))
        addedAndRemoved = some s ∧
      0 ∈ s.shared.removed ∧ ¬ BackgroundCalls (sampleReader 1 (by decide)) s 0 := by
  have settled : Along (step (sampleReader 1 (by decide))) Settled
      (State.initial (Accessor sampleSchema)) addedAndRemoved :=
    along_cons rfl trivial <| along_cons rfl trivial <| along_cons rfl trivial <|
      along_cons rfl trivial <| along_cons rfl trivial <| along_cons rfl trivial <|
      along_cons rfl trivial <| along_cons rfl trivial <| along_cons rfl trivial <|
      along_cons rfl trivial <| along_cons rfl trivial <| along_cons rfl (.inl rfl) trivial
  obtain ⟨s, whole, removed⟩ : ∃ s,
      run (step (sampleReader 1 (by decide))) (State.initial (Accessor sampleSchema))
        addedAndRemoved = some s ∧ 0 ∈ s.shared.removed := ⟨_, rfl, List.mem_cons_self⟩
  refine ⟨s, whole, removed, ?_⟩
  intro called
  exact (removed_called_iff_not_settled (sampleReader 1 (by decide)) _ s whole).1 settled 0 called
    removed

/-- The second listener is called after its removal has returned. -/
theorem removed_listener_called :
    ∃ (labels : List (Label Unit Nat)) (s : State Unit Nat (Accessor sampleSchema)),
      run (step (sampleReader 1 (by decide))) (State.initial (Accessor sampleSchema)) labels =
          some s ∧
        1 ∈ s.shared.removed ∧ BackgroundCalls (sampleReader 1 (by decide)) s 1 := by
  obtain ⟨msg, opened⟩ := wholeHeader_opens 1 (by decide)
  obtain ⟨s, whole, idle, top, goes, freeCb, set, arrived, listeners, free, running⟩ :
      ∃ s : State Unit Nat (Accessor sampleSchema),
        run (step (sampleReader 1 (by decide))) (State.initial (Accessor sampleSchema))
            twoListeners = some s ∧
          s.app () = .idle ∧ s.loop = .top ∧ s.shared.coreClosed = false ∧
          s.shared.cbMutex = none ∧ s.shared.callback = true ∧
          takeLoop 0 [] s.shared.cache = [⟨0, true, wholeHeader⟩] ∧
          s.shared.listeners = [0, 1] ∧ s.shared.mu = none ∧ s.shared.terminated = false :=
    ⟨_, rfl, rfl, rfl, rfl, rfl, rfl, rfl, rfl, rfl, rfl⟩
  obtain ⟨taken, taking, delivers, app, same, mu, running⟩ :=
    reaches_deliver (sampleReader 1 (by decide)) running top goes freeCb set arrived
  obtain ⟨copied, copying, calls, app', listed, free', running'⟩ :=
    reaches_callSnapshot (sampleReader 1 (by decide)) running delivers opened (by rw [mu, free])
  have other : 0 ∈ copied.shared.listeners := by
    rw [listed, same, listeners]
    exact List.mem_cons_self
  obtain ⟨returned, removing, still, removed, running''⟩ :=
    removeListener_returns (sampleReader 1 (by decide)) (t := ()) running'
      (by rw [app', app, idle]) free' other Nat.zero_ne_one
  have ahead : 1 ∈ returned.loop.ahead := by
    rw [still, calls, same, listeners]
    exact List.mem_cons_of_mem _ List.mem_cons_self
  obtain ⟨more, last, calling, gone, called⟩ :=
    State.calls_what_is_ahead running'' ahead removed
  have all := (run_append whole).trans ((run_append taking).trans
    ((run_append copying).trans ((run_append removing).trans calling)))
  exact ⟨_, last, all, gone, called⟩

end Sample

end Arcal.Dds
