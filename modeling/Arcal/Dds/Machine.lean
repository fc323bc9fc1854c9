import Arcal.Dds.Dispatch
import Arcal.Lib.Transition

/-! `DdsReader` and `DdsReaderCore` as a machine of threads: application threads that call
the reader, the background thread in `DdsReaderCore::Impl::loop`, the two mutexes and the
DDS cache between them. One step of a thread goes up to the next place where another
thread can come in: a lock, an unlock, a take, a `dispatchOne`, a `handleMessage` call.
Listeners return from `handleMessage` and do not call the reader from inside it. -/

namespace Arcal.Dds

open Schema Cdr Transition

/-- A sample in the DDS cache; `seq` tells arrivals apart. -/
structure CachedSample where
  seq : Nat
  valid : Bool
  sample : TaggedSample
  deriving DecidableEq, Repr

/-- The loop of `DdsReaderCore::Impl::take` over what `reader.take()` returned. -/
def takeLoop (maxSamples : Nat) (out : List CachedSample) : List CachedSample → List CachedSample
  | [] => out
  | s :: rest =>
      if !s.valid then takeLoop maxSamples out rest
      else if maxSamples > 0 ∧ out.length ≥ maxSamples then out
      else takeLoop maxSamples (out ++ [s]) rest

def validOf (cache : List CachedSample) : List CachedSample := cache.filter CachedSample.valid

theorem takeLoop_eq (maxSamples : Nat) (out cache : List CachedSample) :
    takeLoop maxSamples out cache =
      out ++ if maxSamples = 0 then validOf cache
        else (validOf cache).take (maxSamples - out.length) := by
  induction cache generalizing out with
  | nil => simp [takeLoop, validOf]
  | cons s rest ih =>
      unfold takeLoop
      by_cases valid : s.valid = true
      · rw [if_neg (by simp [valid])]
        have here : validOf (s :: rest) = s :: validOf rest := List.filter_cons_of_pos valid
        by_cases full : maxSamples > 0 ∧ out.length ≥ maxSamples
        · have none' : maxSamples - out.length = 0 := by omega
          rw [if_pos full, if_neg (by omega), none', List.take_zero, List.append_nil]
        · rw [if_neg full, ih, here]
          by_cases unlimited : maxSamples = 0
          · simp [unlimited]
          · have room : maxSamples - out.length = (maxSamples - (out.length + 1)) + 1 := by omega
            simp [unlimited, room, List.take_succ_cons]
      · rw [if_pos (by simpa using valid), ih]
        have here : validOf (s :: rest) = validOf rest := List.filter_cons_of_neg valid
        rw [here]

/-- The part of `dispatchOne` before any listener is involved. -/
def openSample {schema : SchemaModel} (bridge : Option CdrRegistry) (T : MessageType schema)
    (s : TaggedSample) : Except Exc (Option (Accessor schema)) :=
  let msg := T.create
  let expected := cdrTypeTag msg
  if s.tag ≠ expected then .ok none
  else
    match cdrDeserialize bridge s.tag s.data msg with
    | (.error e, _) => .error e
    | (.ok _, filled) => .ok (some filled)

theorem dispatchOne_openSample {schema : SchemaModel} {L : Type} (bridge : Option CdrRegistry)
    (T : MessageType schema) (listeners : List L) (s : TaggedSample) (callListener : Option L) :
    dispatchOne bridge T listeners s callListener =
      match openSample bridge T s with
      | .error e => ⟨[], some e⟩
      | .ok none => ⟨[], none⟩
      | .ok (some msg) =>
          ⟨(callListener.toList ++ listeners).map fun listener => (listener, msg), none⟩ := by
  unfold dispatchOne openSample
  by_cases wrong : s.tag ≠ cdrTypeTag T.create
  · simp only [if_pos wrong]
  · simp only [if_neg wrong]
    cases cdrDeserialize bridge s.tag s.data T.create with
    | mk result filled =>
        cases result with
        | error e => rfl
        | ok u => rfl

theorem openSample_of_good {schema : SchemaModel} {bridge : Option CdrRegistry}
    {T : MessageType schema} {s : TaggedSample} (good : Good bridge T s) :
    ∃ msg, openSample bridge T s = .ok (some msg) := by
  rcases good with ⟨right, decoded⟩
  have accepted : ¬ s.tag ≠ cdrTypeTag T.create := not_not.mpr right
  simp only [openSample, if_neg accepted]
  cases run : cdrDeserialize bridge s.tag s.data T.create with
  | mk result filled =>
      cases result with
      | ok u => exact ⟨filled, rfl⟩
      | error e =>
          rw [run] at decoded
          cases decoded

inductive Thread (Tid : Type)
  | app (t : Tid)
  | background
  deriving DecidableEq

/-- Where a thread stands in `for (auto& s : samples) dispatchOne(s, callListener)`. -/
inductive Dispatching (L M : Type)
  | next (pending : List CachedSample)
  | callListener (listener : L) (msg : M) (pending : List CachedSample)
  | lockMu (msg : M) (pending : List CachedSample)
  | snapshot (msg : M) (pending : List CachedSample)
  | callSnapshot (msg : M) (snap : List L) (pending : List CachedSample)

inductive Operation (L : Type)
  | addListener (listener : L)
  | removeListener (listener : L)
  | read (numberOfMessages : Nat) (listener : L)
  | readNoWait (numberOfMessages : Nat) (listener : L)
  | close

inductive AppPc (L M : Type)
  | idle
  | addLock (listener : L)
  | addPush (listener : L)
  | addLockCb
  | addSetCallback
  | addUnlock
  | removeLock (listener : L)
  | removeErase (listener : L)
  | removeLockCb (listener : L)
  | removeClearCallback (listener : L)
  | removeUnlock (listener : L)
  | readWait (numberOfMessages : Nat) (listener : L)
  | readTake (numberOfMessages : Nat) (listener : L)
  | readDispatch (listener : L) (at' : Dispatching L M)
  | closeLockCb
  | closeClearCallback
  | closeCore

inductive LoopPc (L M : Type)
  | top
  | lockCopy
  | copyCallback
  | wait
  | take
  | lockDeliver (samples : List CachedSample)
  | recheck (samples : List CachedSample)
  | deliver (at' : Dispatching L M)
  | unlockDeliver
  | exited

/-- What the threads share, with the history that the results speak about. -/
structure Shared (Tid L M : Type) where
  mu : Option (Thread Tid)
  cbMutex : Option (Thread Tid)
  callback : Bool
  listeners : List L
  closed : Bool
  coreClosed : Bool
  cache : List CachedSample
  arrivals : Nat
  terminated : Bool
  /-- valid samples that a take removed from the cache -/
  taken : List CachedSample
  /-- samples that `dispatchOne` was called on -/
  handed : List CachedSample
  /-- `handleMessage` calls -/
  calls : List (Thread Tid × L × M)
  /-- listeners whose removal has returned and that were not added again -/
  removed : List L

structure State (Tid L M : Type) where
  shared : Shared Tid L M
  app : Tid → AppPc L M
  loop : LoopPc L M

/-- A reader as it is built: the message type it reads and its keep-last depth. -/
structure ReaderConfig (schema : SchemaModel) where
  bridge : Option CdrRegistry
  messageType : MessageType schema
  depth : Nat
  positive : 0 < depth

variable {schema : SchemaModel} {Tid L : Type}

def sampleReader (depth : Nat) (positive : 0 < depth) : ReaderConfig sampleSchema :=
  ⟨some sampleRegistry, headerMessage, depth, positive⟩

theorem wholeHeader_opens (depth : Nat) (positive : 0 < depth) :
    ∃ msg, openSample (sampleReader depth positive).bridge
      (sampleReader depth positive).messageType wholeHeader = .ok (some msg) :=
  openSample_of_good wholeHeader_good

def State.initial (M : Type) : State Tid L M where
  shared :=
    { mu := none, cbMutex := none, callback := false, listeners := [], closed := false,
      coreClosed := false, cache := [], arrivals := 0, terminated := false, taken := [],
      handed := [], calls := [], removed := [] }
  app := fun _ => .idle
  loop := .top

def lockMu (self : Thread Tid) (sh : Shared Tid L (Accessor schema)) :
    Option (Shared Tid L (Accessor schema)) :=
  match sh.mu with
  | none => some { sh with mu := some self }
  | some _ => none

def lockCbMutex (self : Thread Tid) (sh : Shared Tid L (Accessor schema)) :
    Option (Shared Tid L (Accessor schema)) :=
  match sh.cbMutex with
  | none => some { sh with cbMutex := some self }
  | some _ => none

/-- How a step of `dispatchOne`'s loop ends. -/
inductive DispatchResult (L M : Type)
  | more (at' : Dispatching L M)
  | done
  | thrown (e : Exc)

/-- One step inside `dispatchOne`, by thread `self`. -/
def dispatchStep (cfg : ReaderConfig schema) (self : Thread Tid) (callListener : Option L)
    (sh : Shared Tid L (Accessor schema)) :
    Dispatching L (Accessor schema) →
      Option (Shared Tid L (Accessor schema) × DispatchResult L (Accessor schema))
  | .next [] => some (sh, .done)
  | .next (s :: pending) =>
      let handed := { sh with handed := sh.handed ++ [s] }
      match openSample cfg.bridge cfg.messageType s.sample with
      | .error e => some (handed, .thrown e)
      | .ok none => some (handed, .more (.next pending))
      | .ok (some msg) =>
          match callListener with
          | some listener => some (handed, .more (.callListener listener msg pending))
          | none => some (handed, .more (.lockMu msg pending))
  | .callListener listener msg pending =>
      some ({ sh with calls := sh.calls ++ [(self, listener, msg)] }, .more (.lockMu msg pending))
  | .lockMu msg pending =>
      (lockMu self sh).map fun sh => (sh, .more (.snapshot msg pending))
  | .snapshot msg pending =>
      some ({ sh with mu := none }, .more (.callSnapshot msg sh.listeners pending))
  | .callSnapshot _ [] pending => some (sh, .more (.next pending))
  | .callSnapshot msg (listener :: snap) pending =>
      some ({ sh with calls := sh.calls ++ [(self, listener, msg)] },
        .more (.callSnapshot msg snap pending))

/-- `impl_->callback = std::move(cb)`, then the end of the `lock_guard`. -/
def storeCallback (cb : Bool) (sh : Shared Tid L (Accessor schema)) :
    Shared Tid L (Accessor schema) :=
  { sh with callback := cb, cbMutex := none }

/-- `Impl::take`: the cache is emptied whatever the limit. -/
def takeCache (sh : Shared Tid L (Accessor schema)) : Shared Tid L (Accessor schema) :=
  { sh with cache := [], taken := sh.taken ++ validOf sh.cache }

/-- What a thread at rest does first when it is asked for an operation; a read on a closed
reader throws right away. -/
def begin (sh : Shared Tid L (Accessor schema)) :
    Operation L → Shared Tid L (Accessor schema) × AppPc L (Accessor schema)
  | .addListener listener => (sh, .addLock listener)
  | .removeListener listener => (sh, .removeLock listener)
  | .read numberOfMessages listener =>
      if sh.closed then (sh, .idle) else (sh, .readWait numberOfMessages listener)
  | .readNoWait numberOfMessages listener =>
      if sh.closed then (sh, .idle) else (sh, .readTake numberOfMessages listener)
  | .close => ({ sh with closed := true }, .closeLockCb)

/-- A `read` returns when its samples are done, and also when one throws. -/
def AppPc.afterDispatch {M : Type} (listener : L) : DispatchResult L M → AppPc L M
  | .more at' => .readDispatch listener at'
  | .done => .idle
  | .thrown _ => .idle

section

variable [DecidableEq L]

def appStep (cfg : ReaderConfig schema) (t : Tid) (sh : Shared Tid L (Accessor schema)) :
    AppPc L (Accessor schema) →
      Option (Shared Tid L (Accessor schema) × AppPc L (Accessor schema))
  | .idle => none
  | .addLock listener => (lockMu (.app t) sh).map fun sh => (sh, .addPush listener)
  | .addPush listener =>
      let added :=
        { sh with listeners := sh.listeners ++ [listener], removed := sh.removed.filter (· ≠ listener) }
      some (added, if added.listeners.length = 1 then .addLockCb else .addUnlock)
  | .addLockCb => (lockCbMutex (.app t) sh).map fun sh => (sh, .addSetCallback)
  | .addSetCallback => some (storeCallback true sh, .addUnlock)
  | .addUnlock => some ({ sh with mu := none }, .idle)
  | .removeLock listener => (lockMu (.app t) sh).map fun sh => (sh, .removeErase listener)
  | .removeErase listener =>
      let erased := { sh with listeners := sh.listeners.filter (· ≠ listener) }
      some (erased, if erased.listeners = [] then .removeLockCb listener else .removeUnlock listener)
  | .removeLockCb listener =>
      (lockCbMutex (.app t) sh).map fun sh => (sh, .removeClearCallback listener)
  | .removeClearCallback listener => some (storeCallback false sh, .removeUnlock listener)
  | .removeUnlock listener =>
      some ({ sh with mu := none, removed := listener :: sh.removed }, .idle)
  | .readWait numberOfMessages listener => some (sh, .readTake numberOfMessages listener)
  | .readTake numberOfMessages listener =>
      some (takeCache sh, .readDispatch listener (.next (takeLoop numberOfMessages [] sh.cache)))
  | .readDispatch listener at' =>
      (dispatchStep cfg (.app t) (some listener) sh at').map fun inner =>
        (inner.1, .afterDispatch listener inner.2)
  | .closeLockCb => (lockCbMutex (.app t) sh).map fun sh => (sh, .closeClearCallback)
  | .closeClearCallback => some (storeCallback false sh, .closeCore)
  | .closeCore => some ({ sh with coreClosed := true }, .idle)

/-- `DdsReaderCore::Impl::loop`; an exception out of the callback ends the process. -/
def loopStep (cfg : ReaderConfig schema) (sh : Shared Tid L (Accessor schema)) :
    LoopPc L (Accessor schema) →
      Option (Shared Tid L (Accessor schema) × LoopPc L (Accessor schema))
  | .top => some (sh, if sh.coreClosed then .exited else .lockCopy)
  | .lockCopy => (lockCbMutex .background sh).map fun sh => (sh, .copyCallback)
  | .copyCallback => some ({ sh with cbMutex := none }, if sh.callback then .wait else .top)
  | .wait => some (sh, if sh.coreClosed then .exited else .take)
  | .take =>
      let samples := takeLoop 0 [] sh.cache
      some (takeCache sh, if samples = [] then .top else .lockDeliver samples)
  | .lockDeliver samples => (lockCbMutex .background sh).map fun sh => (sh, .recheck samples)
  | .recheck samples =>
      some (sh, if sh.callback then .deliver (.next samples) else .unlockDeliver)
  | .deliver at' =>
      (dispatchStep cfg .background none sh at').map fun
        | (sh, .more at') => (sh, .deliver at')
        | (sh, .done) => (sh, .unlockDeliver)
        | (sh, .thrown _) => ({ sh with cbMutex := none, terminated := true }, .exited)
  | .unlockDeliver => some ({ sh with cbMutex := none }, .top)
  | .exited => none

/-- Who moves: DDS with a new sample, an application thread that starts an operation or goes
on with one, or the background thread. -/
inductive Label (Tid L : Type)
  | arrive (valid : Bool) (sample : TaggedSample)
  | start (t : Tid) (op : Operation L)
  | app (t : Tid)
  | background

def keepLast (depth : Nat) (cache : List CachedSample) : List CachedSample :=
  cache.drop (cache.length - depth)

def arrive (cfg : ReaderConfig schema) (valid : Bool) (sample : TaggedSample)
    (sh : Shared Tid L (Accessor schema)) : Shared Tid L (Accessor schema) :=
  { sh with
    cache := keepLast cfg.depth (sh.cache ++ [⟨sh.arrivals, valid, sample⟩])
    arrivals := sh.arrivals + 1 }

variable [DecidableEq Tid]

def State.withApp (s : State Tid L (Accessor schema)) (t : Tid)
    (moved : Shared Tid L (Accessor schema) × AppPc L (Accessor schema)) :
    State Tid L (Accessor schema) :=
  { s with shared := moved.1, app := Function.update s.app t moved.2 }

def State.withLoop (s : State Tid L (Accessor schema))
    (moved : Shared Tid L (Accessor schema) × LoopPc L (Accessor schema)) :
    State Tid L (Accessor schema) :=
  { s with shared := moved.1, loop := moved.2 }

def step (cfg : ReaderConfig schema) (s : State Tid L (Accessor schema)) :
    Label Tid L → Option (State Tid L (Accessor schema)) := fun label =>
  if s.shared.terminated then none
  else
    match label with
    | .arrive valid sample => some { s with shared := arrive cfg valid sample s.shared }
    | .start t op =>
        match s.app t with
        | .idle => some (s.withApp t (begin s.shared op))
        | _ => none
    | .app t => (appStep cfg t s.shared (s.app t)).map (s.withApp t)
    | .background => (loopStep cfg s.shared s.loop).map s.withLoop

omit [DecidableEq L] in
@[simp] theorem State.withApp_shared (s : State Tid L (Accessor schema)) (t : Tid)
    (moved : Shared Tid L (Accessor schema) × AppPc L (Accessor schema)) :
    (s.withApp t moved).shared = moved.1 := rfl

omit [DecidableEq L] in
@[simp] theorem State.withApp_loop (s : State Tid L (Accessor schema)) (t : Tid)
    (moved : Shared Tid L (Accessor schema) × AppPc L (Accessor schema)) :
    (s.withApp t moved).loop = s.loop := rfl

omit [DecidableEq L] in
@[simp] theorem State.withApp_self (s : State Tid L (Accessor schema)) (t : Tid)
    (moved : Shared Tid L (Accessor schema) × AppPc L (Accessor schema)) :
    (s.withApp t moved).app t = moved.2 := by
  simp [State.withApp]

omit [DecidableEq L] in
@[simp] theorem State.withApp_other (s : State Tid L (Accessor schema)) {t other : Tid}
    (moved : Shared Tid L (Accessor schema) × AppPc L (Accessor schema)) (differs : other ≠ t) :
    (s.withApp t moved).app other = s.app other := by
  simp [State.withApp, differs]

omit [DecidableEq L] [DecidableEq Tid] in
@[simp] theorem State.withLoop_shared (s : State Tid L (Accessor schema))
    (moved : Shared Tid L (Accessor schema) × LoopPc L (Accessor schema)) :
    (s.withLoop moved).shared = moved.1 := rfl

omit [DecidableEq L] [DecidableEq Tid] in
@[simp] theorem State.withLoop_app (s : State Tid L (Accessor schema))
    (moved : Shared Tid L (Accessor schema) × LoopPc L (Accessor schema)) :
    (s.withLoop moved).app = s.app := rfl

omit [DecidableEq L] [DecidableEq Tid] in
@[simp] theorem State.withLoop_loop (s : State Tid L (Accessor schema))
    (moved : Shared Tid L (Accessor schema) × LoopPc L (Accessor schema)) :
    (s.withLoop moved).loop = moved.2 := rfl

theorem step_arrive {cfg : ReaderConfig schema} {s next : State Tid L (Accessor schema)}
    {valid : Bool} {sample : TaggedSample}
    (taken : step cfg s (.arrive valid sample) = some next) :
    next = { s with shared := arrive cfg valid sample s.shared } := by
  unfold step at taken
  split at taken
  · cases taken
  · exact (Option.some.inj taken).symm

theorem step_start {cfg : ReaderConfig schema} {s next : State Tid L (Accessor schema)} {t : Tid}
    {op : Operation L} (taken : step cfg s (.start t op) = some next) :
    s.app t = .idle ∧ next = s.withApp t (begin s.shared op) := by
  unfold step at taken
  split at taken
  · cases taken
  · simp only at taken
    split at taken
    · next idle => exact ⟨idle, (Option.some.inj taken).symm⟩
    · cases taken

theorem step_app {cfg : ReaderConfig schema} {s next : State Tid L (Accessor schema)} {t : Tid}
    (taken : step cfg s (.app t) = some next) :
    ∃ moved, appStep cfg t s.shared (s.app t) = some moved ∧ next = s.withApp t moved := by
  unfold step at taken
  split at taken
  · cases taken
  · obtain ⟨moved, run, same⟩ := Option.map_eq_some_iff.mp taken
    exact ⟨moved, run, same.symm⟩

theorem step_background {cfg : ReaderConfig schema} {s next : State Tid L (Accessor schema)}
    (taken : step cfg s .background = some next) :
    ∃ moved, loopStep cfg s.shared s.loop = some moved ∧ next = s.withLoop moved := by
  unfold step at taken
  split at taken
  · cases taken
  · obtain ⟨moved, run, same⟩ := Option.map_eq_some_iff.mp taken
    exact ⟨moved, run, same.symm⟩

end

section Locks

variable {self : Thread Tid} {sh locked : Shared Tid L (Accessor schema)}

theorem lockMu_eq_some : lockMu self sh = some locked ↔
    sh.mu = none ∧ locked = { sh with mu := some self } := by
  unfold lockMu
  split
  · next free => simp [free, eq_comm]
  · next held => simp [held]

theorem lockCbMutex_eq_some : lockCbMutex self sh = some locked ↔
    sh.cbMutex = none ∧ locked = { sh with cbMutex := some self } := by
  unfold lockCbMutex
  split
  · next free => simp [free, eq_comm]
  · next held => simp [held]

inductive DispatchMove (cfg : ReaderConfig schema) (self : Thread Tid) (callListener : Option L)
    (sh : Shared Tid L (Accessor schema)) :
    Dispatching L (Accessor schema) →
      Shared Tid L (Accessor schema) × DispatchResult L (Accessor schema) → Prop
  | finish : DispatchMove cfg self callListener sh (.next []) (sh, .done)
  | throw (s : CachedSample) (pending : List CachedSample) (e : Exc)
      (opened : openSample cfg.bridge cfg.messageType s.sample = .error e) :
      DispatchMove cfg self callListener sh (.next (s :: pending))
        ({ sh with handed := sh.handed ++ [s] }, .thrown e)
  | drop (s : CachedSample) (pending : List CachedSample)
      (opened : openSample cfg.bridge cfg.messageType s.sample = .ok none) :
      DispatchMove cfg self callListener sh (.next (s :: pending))
        ({ sh with handed := sh.handed ++ [s] }, .more (.next pending))
  | toListener (listener : L) (polled : callListener = some listener) (s : CachedSample)
      (pending : List CachedSample) (msg : Accessor schema)
      (opened : openSample cfg.bridge cfg.messageType s.sample = .ok (some msg)) :
      DispatchMove cfg self callListener sh (.next (s :: pending))
        ({ sh with handed := sh.handed ++ [s] }, .more (.callListener listener msg pending))
  | toLock (background : callListener = none) (s : CachedSample) (pending : List CachedSample)
      (msg : Accessor schema)
      (opened : openSample cfg.bridge cfg.messageType s.sample = .ok (some msg)) :
      DispatchMove cfg self callListener sh (.next (s :: pending))
        ({ sh with handed := sh.handed ++ [s] }, .more (.lockMu msg pending))
  | call (listener : L) (msg : Accessor schema) (pending : List CachedSample) :
      DispatchMove cfg self callListener sh (.callListener listener msg pending)
        ({ sh with calls := sh.calls ++ [(self, listener, msg)] }, .more (.lockMu msg pending))
  | lock (free : sh.mu = none) (msg : Accessor schema) (pending : List CachedSample) :
      DispatchMove cfg self callListener sh (.lockMu msg pending)
        ({ sh with mu := some self }, .more (.snapshot msg pending))
  | snapshot (msg : Accessor schema) (pending : List CachedSample) :
      DispatchMove cfg self callListener sh (.snapshot msg pending)
        ({ sh with mu := none }, .more (.callSnapshot msg sh.listeners pending))
  | snapshotDone (msg : Accessor schema) (pending : List CachedSample) :
      DispatchMove cfg self callListener sh (.callSnapshot msg [] pending)
        (sh, .more (.next pending))
  | callSnapshot (listener : L) (msg : Accessor schema) (snap : List L)
      (pending : List CachedSample) :
      DispatchMove cfg self callListener sh (.callSnapshot msg (listener :: snap) pending)
        ({ sh with calls := sh.calls ++ [(self, listener, msg)] },
          .more (.callSnapshot msg snap pending))

theorem dispatchStep_move {cfg : ReaderConfig schema} {callListener : Option L}
    {at' : Dispatching L (Accessor schema)}
    {moved : Shared Tid L (Accessor schema) × DispatchResult L (Accessor schema)}
    (run : dispatchStep cfg self callListener sh at' = some moved) :
    DispatchMove cfg self callListener sh at' moved := by
  cases at' with
  | next pending =>
      cases pending with
      | nil =>
          injection run with same
          rw [← same]
          exact .finish
      | cons s pending =>
          simp only [dispatchStep] at run
          split at run
          · next e opened =>
            injection run with same
            rw [← same]
            exact .throw s pending e opened
          · next opened =>
            injection run with same
            rw [← same]
            exact .drop s pending opened
          · next msg opened =>
            cases callListener with
            | none =>
                injection run with same
                rw [← same]
                exact .toLock rfl s pending msg opened
            | some listener =>
                injection run with same
                rw [← same]
                exact .toListener listener rfl s pending msg opened
  | callListener listener msg pending =>
      injection run with same
      rw [← same]
      exact .call listener msg pending
  | lockMu msg pending =>
      obtain ⟨locked, took, same⟩ := Option.map_eq_some_iff.mp run
      obtain ⟨free, lockedEq⟩ := lockMu_eq_some.mp took
      rw [← same, lockedEq]
      exact .lock free msg pending
  | snapshot msg pending =>
      injection run with same
      rw [← same]
      exact .snapshot msg pending
  | callSnapshot msg snap pending =>
      cases snap with
      | nil =>
          injection run with same
          rw [← same]
          exact .snapshotDone msg pending
      | cons listener snap =>
          injection run with same
          rw [← same]
          exact .callSnapshot listener msg snap pending

theorem dispatchStep_frame {cfg : ReaderConfig schema} {callListener : Option L}
    {at' : Dispatching L (Accessor schema)}
    {moved : Shared Tid L (Accessor schema) × DispatchResult L (Accessor schema)}
    (run : dispatchStep cfg self callListener sh at' = some moved) :
    ∃ mu handed calls, moved.1 = { sh with mu := mu, handed := handed, calls := calls } := by
  cases dispatchStep_move run with
  | finish => exact ⟨sh.mu, sh.handed, sh.calls, rfl⟩
  | throw => exact ⟨sh.mu, _, sh.calls, rfl⟩
  | drop => exact ⟨sh.mu, _, sh.calls, rfl⟩
  | toListener => exact ⟨sh.mu, _, sh.calls, rfl⟩
  | toLock => exact ⟨sh.mu, _, sh.calls, rfl⟩
  | call => exact ⟨sh.mu, sh.handed, _, rfl⟩
  | lock => exact ⟨_, sh.handed, sh.calls, rfl⟩
  | snapshot => exact ⟨_, sh.handed, sh.calls, rfl⟩
  | snapshotDone => exact ⟨sh.mu, sh.handed, sh.calls, rfl⟩
  | callSnapshot => exact ⟨sh.mu, sh.handed, _, rfl⟩

/-- What a step of an application thread inside an operation can be. -/
inductive AppMove [DecidableEq L] (cfg : ReaderConfig schema) (t : Tid)
    (sh : Shared Tid L (Accessor schema)) :
    AppPc L (Accessor schema) →
      Shared Tid L (Accessor schema) × AppPc L (Accessor schema) → Prop
  | addLock (listener : L) (free : sh.mu = none) :
      AppMove cfg t sh (.addLock listener) ({ sh with mu := some (.app t) }, .addPush listener)
  | addPushFirst (listener : L) (first : sh.listeners = []) :
      AppMove cfg t sh (.addPush listener)
        ({ sh with listeners := [listener], removed := sh.removed.filter (· ≠ listener) },
          .addLockCb)
  | addPushMore (listener : L) (more : sh.listeners ≠ []) :
      AppMove cfg t sh (.addPush listener)
        ({ sh with
            listeners := sh.listeners ++ [listener], removed := sh.removed.filter (· ≠ listener) },
          .addUnlock)
  | addLockCb (free : sh.cbMutex = none) :
      AppMove cfg t sh .addLockCb ({ sh with cbMutex := some (.app t) }, .addSetCallback)
  | addSetCallback : AppMove cfg t sh .addSetCallback (storeCallback true sh, .addUnlock)
  | addUnlock : AppMove cfg t sh .addUnlock ({ sh with mu := none }, .idle)
  | removeLock (listener : L) (free : sh.mu = none) :
      AppMove cfg t sh (.removeLock listener)
        ({ sh with mu := some (.app t) }, .removeErase listener)
  | removeEraseLast (listener : L) (last : sh.listeners.filter (· ≠ listener) = []) :
      AppMove cfg t sh (.removeErase listener)
        ({ sh with listeners := [] }, .removeLockCb listener)
  | removeEraseMore (listener : L) (more : sh.listeners.filter (· ≠ listener) ≠ []) :
      AppMove cfg t sh (.removeErase listener)
        ({ sh with listeners := sh.listeners.filter (· ≠ listener) }, .removeUnlock listener)
  | removeLockCb (listener : L) (free : sh.cbMutex = none) :
      AppMove cfg t sh (.removeLockCb listener)
        ({ sh with cbMutex := some (.app t) }, .removeClearCallback listener)
  | removeClearCallback (listener : L) :
      AppMove cfg t sh (.removeClearCallback listener)
        (storeCallback false sh, .removeUnlock listener)
  | removeUnlock (listener : L) :
      AppMove cfg t sh (.removeUnlock listener)
        ({ sh with mu := none, removed := listener :: sh.removed }, .idle)
  | readWait (numberOfMessages : Nat) (listener : L) :
      AppMove cfg t sh (.readWait numberOfMessages listener)
        (sh, .readTake numberOfMessages listener)
  | readTake (numberOfMessages : Nat) (listener : L) :
      AppMove cfg t sh (.readTake numberOfMessages listener)
        (takeCache sh, .readDispatch listener (.next (takeLoop numberOfMessages [] sh.cache)))
  | readDispatch (listener : L) (at' : Dispatching L (Accessor schema))
      (inner : Shared Tid L (Accessor schema) × DispatchResult L (Accessor schema))
      (run : dispatchStep cfg (.app t) (some listener) sh at' = some inner) :
      AppMove cfg t sh (.readDispatch listener at')
        (inner.1, .afterDispatch listener inner.2)
  | closeLockCb (free : sh.cbMutex = none) :
      AppMove cfg t sh .closeLockCb ({ sh with cbMutex := some (.app t) }, .closeClearCallback)
  | closeClearCallback : AppMove cfg t sh .closeClearCallback (storeCallback false sh, .closeCore)
  | closeCore : AppMove cfg t sh .closeCore ({ sh with coreClosed := true }, .idle)

theorem appStep_move [DecidableEq L] {cfg : ReaderConfig schema} {t : Tid}
    {pc : AppPc L (Accessor schema)}
    {moved : Shared Tid L (Accessor schema) × AppPc L (Accessor schema)}
    (run : appStep cfg t sh pc = some moved) : AppMove cfg t sh pc moved := by
  cases pc with
  | idle => cases run
  | addLock listener =>
      obtain ⟨locked, took, same⟩ := Option.map_eq_some_iff.mp run
      obtain ⟨free, lockedEq⟩ := lockMu_eq_some.mp took
      rw [← same, lockedEq]
      exact .addLock listener free
  | addPush listener =>
      injection run with same
      rw [← same]
      by_cases first : sh.listeners = []
      · simp only [first, List.nil_append, List.length_singleton, if_true]
        exact .addPushFirst listener first
      · have more : (sh.listeners ++ [listener]).length ≠ 1 := by
          have some' := List.length_pos_iff.mpr first
          rw [List.length_append, List.length_singleton]
          omega
        simp only [if_neg more]
        exact .addPushMore listener first
  | addLockCb =>
      obtain ⟨locked, took, same⟩ := Option.map_eq_some_iff.mp run
      obtain ⟨free, lockedEq⟩ := lockCbMutex_eq_some.mp took
      rw [← same, lockedEq]
      exact .addLockCb free
  | addSetCallback =>
      injection run with same
      rw [← same]
      exact .addSetCallback
  | addUnlock =>
      injection run with same
      rw [← same]
      exact .addUnlock
  | removeLock listener =>
      obtain ⟨locked, took, same⟩ := Option.map_eq_some_iff.mp run
      obtain ⟨free, lockedEq⟩ := lockMu_eq_some.mp took
      rw [← same, lockedEq]
      exact .removeLock listener free
  | removeErase listener =>
      injection run with same
      rw [← same]
      by_cases last : sh.listeners.filter (· ≠ listener) = []
      · simp only [last, if_true]
        exact .removeEraseLast listener last
      · simp only [if_neg last]
        exact .removeEraseMore listener last
  | removeLockCb listener =>
      obtain ⟨locked, took, same⟩ := Option.map_eq_some_iff.mp run
      obtain ⟨free, lockedEq⟩ := lockCbMutex_eq_some.mp took
      rw [← same, lockedEq]
      exact .removeLockCb listener free
  | removeClearCallback listener =>
      injection run with same
      rw [← same]
      exact .removeClearCallback listener
  | removeUnlock listener =>
      injection run with same
      rw [← same]
      exact .removeUnlock listener
  | readWait numberOfMessages listener =>
      injection run with same
      rw [← same]
      exact .readWait numberOfMessages listener
  | readTake numberOfMessages listener =>
      injection run with same
      rw [← same]
      exact .readTake numberOfMessages listener
  | readDispatch listener at' =>
      obtain ⟨inner, taken, same⟩ := Option.map_eq_some_iff.mp run
      rw [← same]
      exact .readDispatch listener at' inner taken
  | closeLockCb =>
      obtain ⟨locked, took, same⟩ := Option.map_eq_some_iff.mp run
      obtain ⟨free, lockedEq⟩ := lockCbMutex_eq_some.mp took
      rw [← same, lockedEq]
      exact .closeLockCb free
  | closeClearCallback =>
      injection run with same
      rw [← same]
      exact .closeClearCallback
  | closeCore =>
      injection run with same
      rw [← same]
      exact .closeCore

inductive LoopMove (cfg : ReaderConfig schema) (sh : Shared Tid L (Accessor schema)) :
    LoopPc L (Accessor schema) →
      Shared Tid L (Accessor schema) × LoopPc L (Accessor schema) → Prop
  | quit (pc : LoopPc L (Accessor schema)) (polls : pc = .top ∨ pc = .wait)
      (closed : sh.coreClosed = true) : LoopMove cfg sh pc (sh, .exited)
  | top (goes : sh.coreClosed = false) : LoopMove cfg sh .top (sh, .lockCopy)
  | lockCopy (free : sh.cbMutex = none) :
      LoopMove cfg sh .lockCopy ({ sh with cbMutex := some .background }, .copyCallback)
  | copied (set : sh.callback = true) :
      LoopMove cfg sh .copyCallback ({ sh with cbMutex := none }, .wait)
  | nothingToCall (unset : sh.callback = false) :
      LoopMove cfg sh .copyCallback ({ sh with cbMutex := none }, .top)
  | wait (goes : sh.coreClosed = false) : LoopMove cfg sh .wait (sh, .take)
  | takeNothing (empty : takeLoop 0 [] sh.cache = []) :
      LoopMove cfg sh .take (takeCache sh, .top)
  | take (some' : takeLoop 0 [] sh.cache ≠ []) :
      LoopMove cfg sh .take (takeCache sh, .lockDeliver (takeLoop 0 [] sh.cache))
  | lockDeliver (samples : List CachedSample) (free : sh.cbMutex = none) :
      LoopMove cfg sh (.lockDeliver samples)
        ({ sh with cbMutex := some .background }, .recheck samples)
  | deliver (samples : List CachedSample) (set : sh.callback = true) :
      LoopMove cfg sh (.recheck samples) (sh, .deliver (.next samples))
  | giveUp (samples : List CachedSample) (cleared : sh.callback = false) :
      LoopMove cfg sh (.recheck samples) (sh, .unlockDeliver)
  | more (at' : Dispatching L (Accessor schema)) (sh' : Shared Tid L (Accessor schema))
      (after : Dispatching L (Accessor schema))
      (run : dispatchStep cfg .background none sh at' = some (sh', .more after)) :
      LoopMove cfg sh (.deliver at') (sh', .deliver after)
  | done (at' : Dispatching L (Accessor schema)) (sh' : Shared Tid L (Accessor schema))
      (run : dispatchStep cfg .background none sh at' = some (sh', .done)) :
      LoopMove cfg sh (.deliver at') (sh', .unlockDeliver)
  | thrown (at' : Dispatching L (Accessor schema)) (sh' : Shared Tid L (Accessor schema))
      (e : Exc) (run : dispatchStep cfg .background none sh at' = some (sh', .thrown e)) :
      LoopMove cfg sh (.deliver at') ({ sh' with cbMutex := none, terminated := true }, .exited)
  | unlockDeliver : LoopMove cfg sh .unlockDeliver ({ sh with cbMutex := none }, .top)

theorem loopStep_move {cfg : ReaderConfig schema} {pc : LoopPc L (Accessor schema)}
    {moved : Shared Tid L (Accessor schema) × LoopPc L (Accessor schema)}
    (run : loopStep cfg sh pc = some moved) : LoopMove cfg sh pc moved := by
  cases pc with
  | top =>
      injection run with same
      rw [← same]
      by_cases closed : sh.coreClosed = true
      · simp only [if_pos closed]
        exact .quit .top (.inl rfl) closed
      · simp only [if_neg closed]
        exact .top (Bool.eq_false_iff.mpr closed)
  | lockCopy =>
      obtain ⟨locked, took, same⟩ := Option.map_eq_some_iff.mp run
      obtain ⟨free, lockedEq⟩ := lockCbMutex_eq_some.mp took
      rw [← same, lockedEq]
      exact .lockCopy free
  | copyCallback =>
      injection run with same
      rw [← same]
      by_cases set : sh.callback = true
      · simp only [if_pos set]
        exact .copied set
      · simp only [if_neg set]
        exact .nothingToCall (Bool.eq_false_iff.mpr set)
  | wait =>
      injection run with same
      rw [← same]
      by_cases closed : sh.coreClosed = true
      · simp only [if_pos closed]
        exact .quit .wait (.inr rfl) closed
      · simp only [if_neg closed]
        exact .wait (Bool.eq_false_iff.mpr closed)
  | take =>
      injection run with same
      rw [← same]
      by_cases empty : takeLoop 0 [] sh.cache = []
      · simp only [empty, if_true]
        exact .takeNothing empty
      · simp only [if_neg empty]
        exact .take empty
  | lockDeliver samples =>
      obtain ⟨locked, took, same⟩ := Option.map_eq_some_iff.mp run
      obtain ⟨free, lockedEq⟩ := lockCbMutex_eq_some.mp took
      rw [← same, lockedEq]
      exact .lockDeliver samples free
  | recheck samples =>
      injection run with same
      rw [← same]
      by_cases set : sh.callback = true
      · simp only [if_pos set]
        exact .deliver samples set
      · simp only [if_neg set]
        exact .giveUp samples (Bool.eq_false_iff.mpr set)
  | deliver at' =>
      obtain ⟨⟨after, result⟩, inner, same⟩ := Option.map_eq_some_iff.mp run
      rw [← same]
      cases result with
      | more at'' => exact .more at' after at'' inner
      | done => exact .done at' after inner
      | thrown e => exact .thrown at' after e inner
  | unlockDeliver =>
      injection run with same
      rw [← same]
      exact .unlockDeliver
  | exited => cases run

end Locks

section Alone

variable (cfg : ReaderConfig schema) (self : Thread Tid) (callListener : Option L)

def dispatchAlone (s : Shared Tid L (Accessor schema) × DispatchResult L (Accessor schema))
    (_ : Unit) : Option (Shared Tid L (Accessor schema) × DispatchResult L (Accessor schema)) :=
  match s.2 with
  | .more at' => dispatchStep cfg self callListener s.1 at'
  | _ => none

def Delivery.end' {M : Type} (delivery : Delivery L M) : DispatchResult L M :=
  match delivery.thrown with
  | none => .done
  | some e => .thrown e

theorem alone_step {sh : Shared Tid L (Accessor schema)} {at' : Dispatching L (Accessor schema)}
    {moved : Shared Tid L (Accessor schema) × DispatchResult L (Accessor schema)}
    (run : dispatchStep cfg self callListener sh at' = some moved) :
    Reaches (dispatchAlone cfg self callListener) (sh, .more at') moved :=
  ⟨[()], run_cons_eq_some.mpr ⟨moved, run, rfl⟩⟩

variable (sh : Shared Tid L (Accessor schema))

theorem alone_callSnapshot (msg : Accessor schema) (snap : List L)
    (pending : List CachedSample) :
    Reaches (dispatchAlone cfg self callListener) (sh, .more (.callSnapshot msg snap pending))
      ({ sh with calls := sh.calls ++ snap.map fun listener => (self, listener, msg) },
        .more (.next pending)) := by
  induction snap generalizing sh with
  | nil =>
      rw [List.map_nil, List.append_nil]
      exact alone_step cfg self callListener rfl
  | cons listener snap ih =>
      have rest := ih { sh with calls := sh.calls ++ [(self, listener, msg)] }
      simp only [List.append_assoc, List.singleton_append] at rest
      exact (alone_step cfg self callListener rfl).trans rest

theorem alone_lockMu (free : sh.mu = none) (msg : Accessor schema)
    (pending : List CachedSample) :
    Reaches (dispatchAlone cfg self callListener) (sh, .more (.lockMu msg pending))
      ({ sh with calls := sh.calls ++ sh.listeners.map fun listener => (self, listener, msg) },
        .more (.next pending)) := by
  have locks : dispatchStep cfg self callListener sh (.lockMu msg pending) =
      some ({ sh with mu := some self }, .more (.snapshot msg pending)) := by
    simp [dispatchStep, lockMu, free]
  have restored : { sh with mu := none } = sh := by rw [← free]
  have copies : dispatchStep cfg self callListener { sh with mu := some self }
      (.snapshot msg pending) = some (sh, .more (.callSnapshot msg sh.listeners pending)) := by
    simp only [dispatchStep, restored]
  exact (alone_step cfg self callListener locks).trans
    ((alone_step cfg self callListener copies).trans
      (alone_callSnapshot cfg self callListener sh msg sh.listeners pending))

theorem alone_decoded (free : sh.mu = none) {s : CachedSample} {msg : Accessor schema}
    (opened : openSample cfg.bridge cfg.messageType s.sample = .ok (some msg))
    (pending : List CachedSample) :
    Reaches (dispatchAlone cfg self callListener) (sh, .more (.next (s :: pending)))
      ({ sh with
          handed := sh.handed ++ [s]
          calls := sh.calls ++ (callListener.toList ++ sh.listeners).map
            fun listener => (self, listener, msg) }, .more (.next pending)) := by
  cases callListener with
  | none =>
      have hands : dispatchStep cfg self none sh (.next (s :: pending)) =
          some ({ sh with handed := sh.handed ++ [s] }, .more (.lockMu msg pending)) := by
        simp [dispatchStep, opened]
      exact (alone_step cfg self none hands).trans
        (alone_lockMu cfg self none { sh with handed := sh.handed ++ [s] } free msg pending)
  | some listener =>
      have hands : dispatchStep cfg self (some listener) sh (.next (s :: pending)) =
          some ({ sh with handed := sh.handed ++ [s] },
            .more (.callListener listener msg pending)) := by
        simp [dispatchStep, opened]
      have rest := alone_lockMu cfg self (some listener)
        { sh with handed := sh.handed ++ [s], calls := sh.calls ++ [(self, listener, msg)] }
        free msg pending
      simp only [List.append_assoc, List.singleton_append] at rest
      exact (alone_step cfg self (some listener) hands).trans
        ((alone_step cfg self (some listener) rfl).trans rest)

/-- Left alone, a thread makes the calls that `dispatchAll` lists, and ends as it does. -/
theorem alone_batch (free : sh.mu = none) (batch : List CachedSample) :
    ∃ last, Reaches (dispatchAlone cfg self callListener) (sh, .more (.next batch)) last ∧
      last.1.calls = sh.calls ++
        (dispatchAll cfg.bridge cfg.messageType sh.listeners callListener
          (batch.map CachedSample.sample)).calls.map (fun call => (self, call.1, call.2)) ∧
      last.2 = (dispatchAll cfg.bridge cfg.messageType sh.listeners callListener
        (batch.map CachedSample.sample)).end' := by
  induction batch generalizing sh with
  | nil =>
      refine ⟨_, alone_step cfg self callListener rfl, ?_, rfl⟩
      simp [dispatchAll]
  | cons s pending ih =>
      have one := dispatchOne_openSample cfg.bridge cfg.messageType sh.listeners s.sample
        callListener
      rw [List.map_cons, dispatchAll, one]
      cases opened : openSample cfg.bridge cfg.messageType s.sample with
      | error e =>
          have throws : dispatchStep cfg self callListener sh (.next (s :: pending)) =
              some ({ sh with handed := sh.handed ++ [s] }, .thrown e) := by
            simp [dispatchStep, opened]
          refine ⟨_, alone_step cfg self callListener throws, ?_, rfl⟩
          simp
      | ok decoded =>
          cases decoded with
          | none =>
              have drops : dispatchStep cfg self callListener sh (.next (s :: pending)) =
                  some ({ sh with handed := sh.handed ++ [s] }, .more (.next pending)) := by
                simp [dispatchStep, opened]
              obtain ⟨last, reaches, calls, ends⟩ := ih { sh with handed := sh.handed ++ [s] } free
              refine ⟨last, (alone_step cfg self callListener drops).trans reaches, ?_, ends⟩
              simpa using calls
          | some msg =>
              obtain ⟨last, reaches, calls, ends⟩ := ih
                { sh with
                  handed := sh.handed ++ [s]
                  calls := sh.calls ++ (callListener.toList ++ sh.listeners).map
                    fun listener => (self, listener, msg) } free
              refine ⟨last, (alone_decoded cfg self callListener sh free opened pending).trans
                reaches, ?_, ends⟩
              simpa [Function.comp_def] using calls

end Alone

end Arcal.Dds
