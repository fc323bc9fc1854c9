import Arcal.Dds.Machine

/-! Who holds `mu_` and `cbMutex`, and when the two can deadlock: `addListener` and
`removeListener` take the callback lock inside the list lock, a delivery takes the list
lock inside the callback lock. -/

namespace Arcal.Dds

open Schema Cdr Transition

variable {schema : SchemaModel} {Tid L : Type}

def Dispatching.holdsMu {M : Type} : Dispatching L M → Bool
  | .snapshot _ _ => true
  | _ => false

def Dispatching.waitsMu {M : Type} : Dispatching L M → Bool
  | .lockMu _ _ => true
  | _ => false

def DispatchResult.holdsMu {M : Type} : DispatchResult L M → Bool
  | .more at' => at'.holdsMu
  | _ => false

namespace AppPc

variable {M : Type}

def holdsMu : AppPc L M → Bool
  | .addPush _ | .addLockCb | .addSetCallback | .addUnlock => true
  | .removeErase _ | .removeLockCb _ | .removeClearCallback _ | .removeUnlock _ => true
  | .readDispatch _ at' => at'.holdsMu
  | _ => false

def waitsMu : AppPc L M → Bool
  | .addLock _ | .removeLock _ => true
  | .readDispatch _ at' => at'.waitsMu
  | _ => false

def holdsCb : AppPc L M → Bool
  | .addSetCallback | .removeClearCallback _ | .closeClearCallback => true
  | _ => false

def waitsCb : AppPc L M → Bool
  | .addLockCb | .removeLockCb _ | .closeLockCb => true
  | _ => false

/-- Adding the first listener, the callback not yet set. -/
def setsNext : AppPc L M → Bool
  | .addLockCb | .addSetCallback => true
  | _ => false

/-- Removing the last listener, the callback not yet cleared. -/
def clearsNext : AppPc L M → Bool
  | .removeLockCb _ | .removeClearCallback _ => true
  | _ => false

end AppPc

namespace AppPc

variable {M : Type} {pc : AppPc L M}

def starts : AppPc L M → Bool
  | .idle | .addLock _ | .removeLock _ | .readWait _ _ | .readTake _ _ | .closeLockCb => true
  | _ => false

theorem holdsMu_of_starts (begun : pc.starts = true) : pc.holdsMu = false := by
  cases pc <;> first | rfl | cases begun

theorem holdsCb_of_starts (begun : pc.starts = true) : pc.holdsCb = false := by
  cases pc <;> first | rfl | cases begun

theorem setsNext_of_starts (begun : pc.starts = true) : pc.setsNext = false := by
  cases pc <;> first | rfl | cases begun

/-- Between the list change and the callback change the list lock is held. -/
theorem holdsMu_of_setsNext (sets : pc.setsNext = true) : pc.holdsMu = true := by
  cases pc <;> first | rfl | cases sets

theorem holdsMu_of_clearsNext (clears : pc.clearsNext = true) : pc.holdsMu = true := by
  cases pc <;> first | rfl | cases clears

end AppPc

theorem begin_frame (sh : Shared Tid L (Accessor schema)) (op : Operation L) :
    ∃ closed, (begin sh op).1 = { sh with closed := closed } := by
  cases op with
  | addListener listener => exact ⟨sh.closed, rfl⟩
  | removeListener listener => exact ⟨sh.closed, rfl⟩
  | read numberOfMessages listener =>
      refine ⟨sh.closed, ?_⟩
      simp only [begin]
      split <;> rfl
  | readNoWait numberOfMessages listener =>
      refine ⟨sh.closed, ?_⟩
      simp only [begin]
      split <;> rfl
  | close => exact ⟨true, rfl⟩

theorem begin_starts (sh : Shared Tid L (Accessor schema)) (op : Operation L) :
    (begin sh op).2.starts = true := by
  cases op with
  | addListener listener => rfl
  | removeListener listener => rfl
  | read numberOfMessages listener =>
      simp only [begin]
      split <;> rfl
  | readNoWait numberOfMessages listener =>
      simp only [begin]
      split <;> rfl
  | close => rfl

namespace LoopPc

variable {M : Type}

def holdsMu : LoopPc L M → Bool
  | .deliver at' => at'.holdsMu
  | _ => false

def waitsMu : LoopPc L M → Bool
  | .deliver at' => at'.waitsMu
  | _ => false

def holdsCb : LoopPc L M → Bool
  | .copyCallback | .recheck _ | .deliver _ | .unlockDeliver => true
  | _ => false

def waitsCb : LoopPc L M → Bool
  | .lockCopy | .lockDeliver _ => true
  | _ => false

def delivers : LoopPc L M → Bool
  | .deliver _ => true
  | _ => false

end LoopPc

namespace State

variable {M : Type}

def holdsMu (s : State Tid L M) : Thread Tid → Bool
  | .app t => (s.app t).holdsMu
  | .background => s.loop.holdsMu

def holdsCb (s : State Tid L M) : Thread Tid → Bool
  | .app t => (s.app t).holdsCb
  | .background => s.loop.holdsCb

/-- The application thread and the background thread each hold one mutex and wait for the
one the other holds. -/
def Deadlock (s : State Tid L M) (t : Tid) : Prop :=
  (s.shared.mu = some (.app t) ∧ (s.app t).waitsCb = true ∧
      s.shared.cbMutex = some .background ∧ s.loop.waitsMu = true) ∨
    (s.shared.cbMutex = some (.app t) ∧ (s.app t).waitsMu = true ∧
      s.shared.mu = some .background ∧ s.loop.waitsCb = true)

end State

section Moves

variable {cfg : ReaderConfig schema}

/-- Each mutex is held by the thread whose program counter is inside it. -/
structure State.Locked {M : Type} (s : State Tid L M) : Prop where
  mu : Exclusive s.shared.mu s.holdsMu
  cb : Exclusive s.shared.cbMutex s.holdsCb

theorem State.locked_initial (M : Type) : (State.initial M : State Tid L M).Locked where
  mu := by
    intro thread
    cases thread <;> simp [State.initial, State.holdsMu, AppPc.holdsMu, LoopPc.holdsMu]
  cb := by
    intro thread
    cases thread <;> simp [State.initial, State.holdsCb, AppPc.holdsCb, LoopPc.holdsCb]

theorem dispatchStep_mu {self : Thread Tid} {callListener : Option L}
    {sh : Shared Tid L (Accessor schema)} {at' : Dispatching L (Accessor schema)}
    {moved : Shared Tid L (Accessor schema) × DispatchResult L (Accessor schema)}
    (run : dispatchStep cfg self callListener sh at' = some moved) :
    LockMove self sh.mu at'.holdsMu moved.1.mu moved.2.holdsMu := by
  cases dispatchStep_move run with
  | finish => exact .stay _ _
  | throw => exact .stay _ _
  | drop => exact .stay _ _
  | toListener => exact .stay _ _
  | toLock => exact .stay _ _
  | call => exact .stay _ _
  | lock free =>
      rw [free]
      exact .lock
  | snapshot => exact .unlock _
  | snapshotDone => exact .stay _ _
  | callSnapshot => exact .stay _ _

theorem dispatchStep_cb {self : Thread Tid} {callListener : Option L}
    {sh : Shared Tid L (Accessor schema)} {at' : Dispatching L (Accessor schema)}
    {moved : Shared Tid L (Accessor schema) × DispatchResult L (Accessor schema)}
    (run : dispatchStep cfg self callListener sh at' = some moved) :
    moved.1.cbMutex = sh.cbMutex := by
  obtain ⟨mu, handed, calls, same⟩ := dispatchStep_frame run
  rw [same]

variable [DecidableEq L] {t : Tid} {sh : Shared Tid L (Accessor schema)}

theorem appStep_mu {pc : AppPc L (Accessor schema)}
    {moved : Shared Tid L (Accessor schema) × AppPc L (Accessor schema)}
    (run : appStep cfg t sh pc = some moved) :
    LockMove (.app t) sh.mu pc.holdsMu moved.1.mu moved.2.holdsMu := by
  cases appStep_move run with
  | addLock listener free =>
      rw [free]
      exact .lock
  | addPushFirst => exact .stay _ _
  | addPushMore => exact .stay _ _
  | addLockCb => exact .stay _ _
  | addSetCallback => exact .stay _ _
  | addUnlock => exact .unlock _
  | removeLock listener free =>
      rw [free]
      exact .lock
  | removeEraseLast => exact .stay _ _
  | removeEraseMore => exact .stay _ _
  | removeLockCb => exact .stay _ _
  | removeClearCallback => exact .stay _ _
  | removeUnlock => exact .unlock _
  | readWait => exact .stay _ _
  | readTake => exact .stay _ _
  | readDispatch listener at' inner taken =>
      have locks := dispatchStep_mu taken
      cases after : inner.2 <;> rw [after] at locks <;> exact locks
  | closeLockCb => exact .stay _ _
  | closeClearCallback => exact .stay _ _
  | closeCore => exact .stay _ _

theorem appStep_cb {pc : AppPc L (Accessor schema)}
    {moved : Shared Tid L (Accessor schema) × AppPc L (Accessor schema)}
    (run : appStep cfg t sh pc = some moved) :
    LockMove (.app t) sh.cbMutex pc.holdsCb moved.1.cbMutex moved.2.holdsCb := by
  cases appStep_move run with
  | addLock => exact .stay _ _
  | addPushFirst => exact .stay _ _
  | addPushMore => exact .stay _ _
  | addLockCb free =>
      rw [free]
      exact .lock
  | addSetCallback => exact .unlock _
  | addUnlock => exact .stay _ _
  | removeLock => exact .stay _ _
  | removeEraseLast => exact .stay _ _
  | removeEraseMore => exact .stay _ _
  | removeLockCb listener free =>
      rw [free]
      exact .lock
  | removeClearCallback => exact .unlock _
  | removeUnlock => exact .stay _ _
  | readWait => exact .stay _ _
  | readTake => exact .stay _ _
  | readDispatch listener at' inner taken =>
      rw [dispatchStep_cb taken]
      cases inner.2 <;> exact .stay _ _
  | closeLockCb free =>
      rw [free]
      exact .lock
  | closeClearCallback => exact .unlock _
  | closeCore => exact .stay _ _

omit [DecidableEq L] in
theorem loopStep_mu {pc : LoopPc L (Accessor schema)}
    {moved : Shared Tid L (Accessor schema) × LoopPc L (Accessor schema)}
    (run : loopStep cfg sh pc = some moved) :
    LockMove .background sh.mu pc.holdsMu moved.1.mu moved.2.holdsMu := by
  cases loopStep_move run with
  | quit _ polls =>
      rcases polls with rfl | rfl <;> exact .stay _ _
  | top => exact .stay _ _
  | lockCopy => exact .stay _ _
  | copied => exact .stay _ _
  | nothingToCall => exact .stay _ _
  | wait => exact .stay _ _
  | takeNothing => exact .stay _ _
  | take => exact .stay _ _
  | lockDeliver => exact .stay _ _
  | deliver => exact .stay _ _
  | giveUp => exact .stay _ _
  | more at' sh' after inner => exact dispatchStep_mu inner
  | done at' sh' inner => exact dispatchStep_mu inner
  | thrown at' sh' e inner => exact dispatchStep_mu inner
  | unlockDeliver => exact .stay _ _

omit [DecidableEq L] in
theorem loopStep_cb {pc : LoopPc L (Accessor schema)}
    {moved : Shared Tid L (Accessor schema) × LoopPc L (Accessor schema)}
    (run : loopStep cfg sh pc = some moved) :
    LockMove .background sh.cbMutex pc.holdsCb moved.1.cbMutex moved.2.holdsCb := by
  cases loopStep_move run with
  | quit _ polls =>
      rcases polls with rfl | rfl <;> exact .stay _ _
  | top => exact .stay _ _
  | lockCopy free =>
      rw [free]
      exact .lock
  | copied => exact .unlock _
  | nothingToCall => exact .unlock _
  | wait => exact .stay _ _
  | takeNothing => exact .stay _ _
  | take => exact .stay _ _
  | lockDeliver samples free =>
      rw [free]
      exact .lock
  | deliver => exact .stay _ _
  | giveUp => exact .stay _ _
  | more at' sh' after inner =>
      rw [dispatchStep_cb inner]
      exact .stay _ _
  | done at' sh' inner =>
      rw [dispatchStep_cb inner]
      exact .stay _ _
  | thrown => exact .unlock _
  | unlockDeliver => exact .unlock _

end Moves

variable {cfg : ReaderConfig schema} [DecidableEq L] [DecidableEq Tid]
  {s next : State Tid L (Accessor schema)} {label : Label Tid L}

omit [DecidableEq L] in
theorem State.Locked.withApp (locked : s.Locked) {t : Tid}
    {moved : Shared Tid L (Accessor schema) × AppPc L (Accessor schema)}
    (mu : LockMove (.app t) s.shared.mu (s.app t).holdsMu moved.1.mu moved.2.holdsMu)
    (cb : LockMove (.app t) s.shared.cbMutex (s.app t).holdsCb moved.1.cbMutex moved.2.holdsCb) :
    (s.withApp t moved).Locked := by
  have apart : ∀ other : Thread Tid, other ≠ .app t →
      (s.withApp t moved).holdsMu other = s.holdsMu other ∧
        (s.withApp t moved).holdsCb other = s.holdsCb other := by
    intro other differs
    cases other with
    | app other =>
        have differs' : other ≠ t := fun same => differs (congrArg Thread.app same)
        simp [State.holdsMu, State.holdsCb, differs']
    | background => exact ⟨rfl, rfl⟩
  constructor
  · apply locked.mu.move rfl mu
    · simp [State.holdsMu]
    · intro other differs
      exact (apart other differs).1
  · apply locked.cb.move rfl cb
    · simp [State.holdsCb]
    · intro other differs
      exact (apart other differs).2

omit [DecidableEq L] [DecidableEq Tid] in
theorem State.Locked.withLoop (locked : s.Locked)
    {moved : Shared Tid L (Accessor schema) × LoopPc L (Accessor schema)}
    (mu : LockMove .background s.shared.mu s.loop.holdsMu moved.1.mu moved.2.holdsMu)
    (cb : LockMove .background s.shared.cbMutex s.loop.holdsCb moved.1.cbMutex moved.2.holdsCb) :
    (s.withLoop moved).Locked := by
  have apart : ∀ other : Thread Tid, other ≠ .background →
      (s.withLoop moved).holdsMu other = s.holdsMu other ∧
        (s.withLoop moved).holdsCb other = s.holdsCb other := by
    intro other differs
    cases other with
    | app other => exact ⟨rfl, rfl⟩
    | background => exact absurd rfl differs
  exact ⟨locked.mu.move rfl mu rfl fun other differs => (apart other differs).1,
    locked.cb.move rfl cb rfl fun other differs => (apart other differs).2⟩

theorem State.Locked.step (locked : s.Locked) (taken : step cfg s label = some next) :
    next.Locked := by
  cases label with
  | arrive valid sample =>
      rw [step_arrive taken]
      exact ⟨locked.mu, locked.cb⟩
  | start t op =>
      obtain ⟨idle, same⟩ := step_start taken
      obtain ⟨closed, shared⟩ := begin_frame s.shared op
      have starts := begin_starts s.shared op
      rw [same]
      apply locked.withApp
      · rw [idle, shared, AppPc.holdsMu_of_starts starts]
        exact .stay _ _
      · rw [idle, shared, AppPc.holdsCb_of_starts starts]
        exact .stay _ _
  | app t =>
      obtain ⟨moved, run, same⟩ := step_app taken
      rw [same]
      exact locked.withApp (appStep_mu run) (appStep_cb run)
  | background =>
      obtain ⟨moved, run, same⟩ := step_background taken
      rw [same]
      exact locked.withLoop (loopStep_mu run) (loopStep_cb run)

omit [DecidableEq L] [DecidableEq Tid] in
theorem State.Locked.alone (locked : s.Locked) {t other : Tid} (inside : (s.app t).holdsMu = true)
    (otherInside : (s.app other).holdsMu = true) : other = t := by
  have one : s.holdsMu (.app other) = true := otherInside
  have two : s.holdsMu (.app t) = true := inside
  injection locked.mu.unique one two

omit [DecidableEq L] [DecidableEq Tid] in
theorem State.Locked.not_delivers (locked : s.Locked) {t : Tid} (inside : (s.app t).holdsCb = true) :
    s.loop.delivers = false := by
  cases delivers : s.loop.delivers with
  | false => rfl
  | true =>
      have one : s.holdsCb (.app t) = true := inside
      have two : s.holdsCb .background = true := by
        cases pc : s.loop <;> simp [pc, LoopPc.delivers, State.holdsCb, LoopPc.holdsCb] at delivers ⊢
      cases locked.cb.unique one two

/-- The callback is set or being called with an empty list only while the removal that
emptied the list has yet to clear it; and it is neither while the first listener is being
added. -/
structure State.Consistent {M : Type} (s : State Tid L M) : Prop where
  called : s.shared.callback = true ∨ s.loop.delivers = true → s.shared.listeners = [] →
    ∃ t, (s.app t).clearsNext = true
  adding : ∀ t, (s.app t).setsNext = true →
    s.shared.listeners ≠ [] ∧ s.shared.callback = false ∧ s.loop.delivers = false

omit [DecidableEq L] [DecidableEq Tid] in
theorem State.consistent_initial (M : Type) : (State.initial M : State Tid L M).Consistent where
  called := by simp [State.initial, LoopPc.delivers]
  adding := by simp [State.initial, AppPc.setsNext]

omit [DecidableEq L] in
theorem State.Consistent.quiet (consistent : s.Consistent) {t : Tid}
    {moved : Shared Tid L (Accessor schema) × AppPc L (Accessor schema)}
    (listeners : moved.1.listeners = s.shared.listeners)
    (callback : moved.1.callback = true → s.shared.callback = true)
    (clears : (s.app t).clearsNext = true → moved.2.clearsNext = true)
    (sets : moved.2.setsNext = true → (s.app t).setsNext = true) :
    (s.withApp t moved).Consistent := by
  constructor
  · intro called empty
    have before : s.shared.callback = true ∨ s.loop.delivers = true := by
      rcases called with set | delivers
      · exact .inl (callback set)
      · exact .inr delivers
    obtain ⟨other, clearing⟩ := consistent.called before (listeners ▸ empty)
    refine ⟨other, ?_⟩
    by_cases self : other = t
    · subst self
      rw [State.withApp_self]
      exact clears clearing
    · rw [State.withApp_other _ _ self]
      exact clearing
  · intro other setting
    have before : (s.app other).setsNext = true := by
      by_cases self : other = t
      · subst self
        rw [State.withApp_self] at setting
        exact sets setting
      · rw [State.withApp_other _ _ self] at setting
        exact setting
    obtain ⟨some', unset, resting⟩ := consistent.adding other before
    refine ⟨?_, ?_, resting⟩
    · rw [State.withApp_shared, listeners]
      exact some'
    · rw [State.withApp_shared, Bool.eq_false_iff]
      intro set
      rw [callback set] at unset
      cases unset

omit [DecidableEq L] in
theorem State.Consistent.inside (locked : s.Locked) {t : Tid} (holds : (s.app t).holdsMu = true)
    {moved : Shared Tid L (Accessor schema) × AppPc L (Accessor schema)}
    (called : moved.1.callback = true ∨ s.loop.delivers = true → moved.1.listeners = [] →
      moved.2.clearsNext = true)
    (adding : moved.2.setsNext = true →
      moved.1.listeners ≠ [] ∧ moved.1.callback = false ∧ s.loop.delivers = false) :
    (s.withApp t moved).Consistent := by
  constructor
  · intro before empty
    refine ⟨t, ?_⟩
    rw [State.withApp_self]
    exact called before empty
  · intro other setting
    by_cases self : other = t
    · subst self
      rw [State.withApp_self] at setting
      exact adding setting
    · rw [State.withApp_other _ _ self] at setting
      exact absurd (locked.alone holds (AppPc.holdsMu_of_setsNext setting)) self

theorem State.Consistent.app (consistent : s.Consistent) (locked : s.Locked) {t : Tid}
    {moved : Shared Tid L (Accessor schema) × AppPc L (Accessor schema)}
    (run : appStep cfg t s.shared (s.app t) = some moved) : (s.withApp t moved).Consistent := by
  have move := appStep_move run
  generalize at' : s.app t = pc at move
  cases move with
  | addLock =>
      exact consistent.quiet rfl id (by simp [at', AppPc.clearsNext]) (by simp [AppPc.setsNext])
  | addPushFirst listener first =>
      have holds : (s.app t).holdsMu = true := by rw [at']; rfl
      have resting : ¬ (s.shared.callback = true ∨ s.loop.delivers = true) := by
        intro called
        obtain ⟨other, clearing⟩ := consistent.called called first
        have self := locked.alone holds (AppPc.holdsMu_of_clearsNext clearing)
        rw [self, at'] at clearing
        cases clearing
      rw [not_or, Bool.not_eq_true, Bool.not_eq_true] at resting
      apply State.Consistent.inside locked holds
      · intro _ empty
        cases empty
      · intro _
        exact ⟨List.cons_ne_nil _ _, resting⟩
  | addPushMore listener more =>
      apply State.Consistent.inside locked (by rw [at']; rfl)
      · intro _ empty
        exact absurd empty (by simp)
      · intro setting
        cases setting
  | addLockCb =>
      exact consistent.quiet rfl id (by simp [at', AppPc.clearsNext]) (by simp [at', AppPc.setsNext])
  | addSetCallback =>
      have adding := consistent.adding t (by rw [at']; rfl)
      apply State.Consistent.inside locked (by rw [at']; rfl)
      · intro _ empty
        exact absurd empty adding.1
      · intro setting
        cases setting
  | addUnlock =>
      exact consistent.quiet rfl id (by simp [at', AppPc.clearsNext]) (by simp [AppPc.setsNext])
  | removeLock =>
      exact consistent.quiet rfl id (by simp [at', AppPc.clearsNext]) (by simp [AppPc.setsNext])
  | removeEraseLast listener last =>
      apply State.Consistent.inside locked (by rw [at']; rfl)
      · intro _ _
        rfl
      · intro setting
        cases setting
  | removeEraseMore listener more =>
      apply State.Consistent.inside locked (by rw [at']; rfl)
      · intro _ empty
        exact absurd empty more
      · intro setting
        cases setting
  | removeLockCb => exact consistent.quiet rfl id (fun _ => rfl) (by simp [AppPc.setsNext])
  | removeClearCallback listener =>
      have resting := locked.not_delivers (t := t) (by rw [at']; rfl)
      apply State.Consistent.inside locked (by rw [at']; rfl)
      · intro called
        rw [resting] at called
        simp [storeCallback] at called
      · intro setting
        cases setting
  | removeUnlock =>
      exact consistent.quiet rfl id (by simp [at', AppPc.clearsNext]) (by simp [AppPc.setsNext])
  | readWait =>
      exact consistent.quiet rfl id (by simp [at', AppPc.clearsNext]) (by simp [AppPc.setsNext])
  | readTake =>
      exact consistent.quiet rfl id (by simp [at', AppPc.clearsNext]) (by simp [AppPc.setsNext])
  | readDispatch listener dispatching inner taken =>
      obtain ⟨mu, handed, calls, frame⟩ := dispatchStep_frame taken
      apply consistent.quiet
      · rw [frame]
      · rw [frame]
        exact id
      · simp [at', AppPc.clearsNext]
      · cases inner.2 <;> simp [AppPc.afterDispatch, AppPc.setsNext]
  | closeLockCb =>
      exact consistent.quiet rfl id (by simp [at', AppPc.clearsNext]) (by simp [AppPc.setsNext])
  | closeClearCallback =>
      exact consistent.quiet rfl (by simp [storeCallback]) (by simp [at', AppPc.clearsNext])
        (by simp [AppPc.setsNext])
  | closeCore =>
      exact consistent.quiet rfl id (by simp [at', AppPc.clearsNext]) (by simp [AppPc.setsNext])

omit [DecidableEq L] [DecidableEq Tid] in
/-- The background thread changes neither the list nor the callback, and starts to call it
only when it is set. -/
theorem loopStep_frame {sh : Shared Tid L (Accessor schema)} {pc : LoopPc L (Accessor schema)}
    {moved : Shared Tid L (Accessor schema) × LoopPc L (Accessor schema)}
    (run : loopStep cfg sh pc = some moved) :
    moved.1.listeners = sh.listeners ∧ moved.1.callback = sh.callback ∧
      moved.1.removed = sh.removed ∧
      (moved.2.delivers = true → sh.callback = true ∨ pc.delivers = true) := by
  cases loopStep_move run with
  | quit => exact ⟨rfl, rfl, rfl, fun delivers => by cases delivers⟩
  | top => exact ⟨rfl, rfl, rfl, fun delivers => by cases delivers⟩
  | lockCopy => exact ⟨rfl, rfl, rfl, fun delivers => by cases delivers⟩
  | copied => exact ⟨rfl, rfl, rfl, fun delivers => by cases delivers⟩
  | nothingToCall => exact ⟨rfl, rfl, rfl, fun delivers => by cases delivers⟩
  | wait => exact ⟨rfl, rfl, rfl, fun delivers => by cases delivers⟩
  | takeNothing => exact ⟨rfl, rfl, rfl, fun delivers => by cases delivers⟩
  | take => exact ⟨rfl, rfl, rfl, fun delivers => by cases delivers⟩
  | lockDeliver => exact ⟨rfl, rfl, rfl, fun delivers => by cases delivers⟩
  | deliver samples set => exact ⟨rfl, rfl, rfl, fun _ => .inl set⟩
  | giveUp => exact ⟨rfl, rfl, rfl, fun delivers => by cases delivers⟩
  | more at' sh' after inner =>
      obtain ⟨mu, handed, calls, frame⟩ := dispatchStep_frame inner
      simp only at frame
      rw [frame]
      exact ⟨rfl, rfl, rfl, fun _ => .inr rfl⟩
  | done at' sh' inner =>
      obtain ⟨mu, handed, calls, frame⟩ := dispatchStep_frame inner
      simp only at frame
      rw [frame]
      exact ⟨rfl, rfl, rfl, fun delivers => by cases delivers⟩
  | thrown at' sh' e inner =>
      obtain ⟨mu, handed, calls, frame⟩ := dispatchStep_frame inner
      simp only at frame
      rw [frame]
      exact ⟨rfl, rfl, rfl, fun delivers => by cases delivers⟩
  | unlockDeliver => exact ⟨rfl, rfl, rfl, fun delivers => by cases delivers⟩

omit [DecidableEq L] [DecidableEq Tid] in
theorem State.Consistent.loop (consistent : s.Consistent)
    {moved : Shared Tid L (Accessor schema) × LoopPc L (Accessor schema)}
    (run : loopStep cfg s.shared s.loop = some moved) : (s.withLoop moved).Consistent := by
  obtain ⟨listeners, callback, _, delivers⟩ := loopStep_frame run
  have before : moved.1.callback = true ∨ moved.2.delivers = true →
      s.shared.callback = true ∨ s.loop.delivers = true := by
    intro called
    rcases called with set | delivering
    · exact .inl (callback ▸ set)
    · exact delivers delivering
  constructor
  · intro called empty
    exact consistent.called (before called) (listeners ▸ empty)
  · intro t setting
    obtain ⟨some', unset, resting⟩ := consistent.adding t setting
    have neither : ¬ (moved.1.callback = true ∨ moved.2.delivers = true) := by
      intro called
      rcases before called with set | delivering
      · rw [unset] at set
        cases set
      · rw [resting] at delivering
        cases delivering
    rw [not_or, Bool.not_eq_true, Bool.not_eq_true] at neither
    refine ⟨?_, neither⟩
    rw [State.withLoop_shared, listeners]
    exact some'

theorem State.Consistent.step (consistent : s.Consistent) (locked : s.Locked)
    (taken : step cfg s label = some next) : next.Consistent := by
  cases label with
  | arrive valid sample =>
      rw [step_arrive taken]
      exact ⟨consistent.called, consistent.adding⟩
  | start t op =>
      obtain ⟨idle, same⟩ := step_start taken
      obtain ⟨closed, frame⟩ := begin_frame s.shared op
      have starts := begin_starts s.shared op
      rw [same]
      apply consistent.quiet
      · rw [frame]
      · rw [frame]
        exact id
      · simp [idle, AppPc.clearsNext]
      · simp [AppPc.setsNext_of_starts starts]
  | app t =>
      obtain ⟨moved, run, same⟩ := step_app taken
      rw [same]
      exact consistent.app locked run
  | background =>
      obtain ⟨moved, run, same⟩ := step_background taken
      rw [same]
      exact consistent.loop run

structure State.Sound {M : Type} (s : State Tid L M) : Prop where
  locked : s.Locked
  consistent : s.Consistent

omit [DecidableEq L] [DecidableEq Tid] in
theorem State.sound_initial (M : Type) : (State.initial M : State Tid L M).Sound :=
  ⟨State.locked_initial M, State.consistent_initial M⟩

theorem State.Sound.step (sound : s.Sound) (taken : Dds.step cfg s label = some next) :
    next.Sound :=
  ⟨sound.locked.step taken, sound.consistent.step sound.locked taken⟩

theorem State.sound_of_run {labels : List (Label Tid L)}
    (whole : run (Dds.step cfg) (State.initial (Accessor schema)) labels = some s) : s.Sound :=
  run_invariant (fun _ _ _ sound taken => sound.step taken)
    (State.sound_initial _) whole

end Arcal.Dds
