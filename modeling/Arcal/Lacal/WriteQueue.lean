import Arcal.Lacal.Announce

/-! `writeQueue_` between `sendLine` and the socket: any thread posts a line, the I/O thread
runs what was posted and what a finished write calls, one at a time. -/

namespace Arcal.Lacal

open Transition

/-- `std::deque`: an element keeps its place while others are pushed and popped. -/
structure Deque (Line : Type) where
  popped : Nat := 0
  items : List Line := []

/-- What `async_write` was given: the buffer is the element of the deque, not a copy. -/
structure Write (Line : Type) where
  place : Nat
  line : Line
  deriving DecidableEq

namespace Deque

variable {Line : Type}

def isEmpty (queue : Deque Line) : Bool := queue.items.isEmpty

def pushBack (queue : Deque Line) (line : Line) : Deque Line :=
  { queue with items := queue.items ++ [line] }

def popFront (queue : Deque Line) : Deque Line :=
  { popped := queue.popped + 1, items := queue.items.tail }

def front (queue : Deque Line) : Option (Write Line) :=
  queue.items.head?.map fun line => { place := queue.popped, line }

end Deque

/-- What a client keeps to write with, and the lines that were posted, whose posted handler
has run, and whose write is complete. -/
structure Writer (Caller Line : Type) where
  isOpen : Bool := true
  /-- The `sendLine` calls that found the client open and have not posted yet. -/
  calls : Caller → Option Line := fun _ => none
  /-- The handlers the I/O thread has still to run. -/
  handlers : List Line := []
  writeQueue : Deque Line := {}
  writes : List (Write Line) := []
  posted : List Line := []
  handled : List Line := []
  completed : List Line := []

namespace Writer

variable {Caller Line : Type}

/-- An empty queue has no front to write; it is never asked for one. -/
def writeNext (w : Writer Caller Line) : Writer Caller Line :=
  { w with writes := w.writes ++ w.writeQueue.front.toList }

def runHandler (w : Writer Caller Line) (line : Line) : Writer Caller Line :=
  let writeInProgress := !w.writeQueue.isEmpty
  let w := { w with writeQueue := w.writeQueue.pushBack line, handled := w.handled ++ [line] }
  if writeInProgress then w else w.writeNext

section Steps

variable [DecidableEq Line]

/-- What a write calls when it is done: with an error, and without. -/
def onError (w : Writer Caller Line) (write : Write Line) : Writer Caller Line :=
  { w with writes := w.writes.erase write, isOpen := false }

def onWritten (w : Writer Caller Line) (write : Write Line) : Writer Caller Line :=
  let w := { w with
    writes := w.writes.erase write
    completed := w.completed ++ [write.line]
    writeQueue := w.writeQueue.popFront }
  if w.writeQueue.isEmpty then w else w.writeNext

/-- Who moves: a thread calls `sendLine`, which looks at `open` and then posts, the I/O thread
runs a posted handler, a write is done, or something else closes the client. -/
inductive Label (Caller Line : Type)
  | call (caller : Caller) (line : Line)
  | post (caller : Caller)
  | handler
  | written (write : Write Line)
  | failed (write : Write Line)
  | close

def Label.isError : Label Caller Line → Bool
  | .failed _ => true
  | _ => false

variable [DecidableEq Caller]

def step (w : Writer Caller Line) : Label Caller Line → Option (Writer Caller Line)
  | .call caller line =>
      match w.calls caller with
      | none => some (if w.isOpen then
          { w with calls := Function.update w.calls caller (some line) } else w)
      | some _ => none
  | .post caller =>
      match w.calls caller with
      | some line => some { w with
          calls := Function.update w.calls caller none
          handlers := w.handlers ++ [line]
          posted := w.posted ++ [line] }
      | none => none
  | .handler =>
      match w.handlers with
      | line :: rest => some ({ w with handlers := rest }.runHandler line)
      | [] => none
  | .written write => if write ∈ w.writes then some (w.onWritten write) else none
  | .failed write => if write ∈ w.writes then some (w.onError write) else none
  | .close => some { w with isOpen := false }

/-- What a step may do: nothing about the writing but post a line, run a posted handler, or
hear of a write that is done. -/
inductive Change (w : Writer Caller Line) : Label Caller Line → Writer Caller Line → Prop
  | outside {label : Label Caller Line} {next : Writer Caller Line} (more : List Line)
      (writeQueue : next.writeQueue = w.writeQueue) (writes : next.writes = w.writes)
      (handlers : next.handlers = w.handlers ++ more) (posted : next.posted = w.posted ++ more)
      (handled : next.handled = w.handled) (completed : next.completed = w.completed)
      (sent : ∀ line ∈ more, ∃ caller, w.calls caller = some line)
      (calls : ∀ caller line, next.calls caller = some line →
        w.calls caller = some line ∨ label = .call caller line ∧ w.isOpen = true)
      (leaves : ∀ caller line, w.calls caller = some line →
        next.calls caller = some line ∨ line ∈ more) :
      Change w label next
  | handler {line : Line} {rest : List Line} (first : w.handlers = line :: rest) :
      Change w .handler ({ w with handlers := rest }.runHandler line)
  | written {write : Write Line} (under : write ∈ w.writes) :
      Change w (.written write) (w.onWritten write)
  | failed {write : Write Line} (under : write ∈ w.writes) :
      Change w (.failed write) (w.onError write)

omit [DecidableEq Line] in
theorem of_update {calls : Caller → Option Line} {caller other : Caller} {value : Option Line}
    {kept : Line} (inside : Function.update calls caller value other = some kept) :
    calls other = some kept ∨ other = caller ∧ value = some kept := by
  by_cases self : other = caller
  · rw [self, Function.update_self] at inside
    exact .inr ⟨self, inside⟩
  · rw [Function.update_of_ne self] at inside
    exact .inl inside

theorem step_change {w next : Writer Caller Line} {label : Label Caller Line}
    (taken : step w label = some next) : Change w label next := by
  cases label with
  | call caller line =>
      simp only [step] at taken
      split at taken
      · next out =>
        injection taken with same
        rw [← same]
        split
        · next found =>
          refine .outside [] rfl rfl (List.append_nil _).symm (List.append_nil _).symm rfl rfl
            nofun ?_ ?_
          · intro other kept inside
            rcases of_update inside with before | ⟨self, same⟩
            · exact .inl before
            · injection same with same
              rw [self, same]
              exact .inr ⟨rfl, found⟩
          · intro other kept inside
            have differs : other ≠ caller := by
              intro self
              rw [self, out] at inside
              cases inside
            exact .inl ((Function.update_of_ne differs _ _).trans inside)
        · exact .outside [] rfl rfl (List.append_nil _).symm (List.append_nil _).symm rfl rfl
            nofun (fun _ _ => .inl) fun _ _ => .inl
      · cases taken
  | post caller =>
      simp only [step] at taken
      split at taken
      · next line held =>
        injection taken with same
        rw [← same]
        refine .outside [line] rfl rfl rfl rfl rfl rfl ?_ ?_ ?_
        · intro other isLine
          rw [List.mem_singleton.mp isLine]
          exact ⟨caller, held⟩
        · intro other kept inside
          rcases of_update inside with before | ⟨_, same⟩
          · exact .inl before
          · cases same
        · intro other kept inside
          by_cases self : other = caller
          · rw [self, held] at inside
            injection inside with same
            exact .inr (List.mem_singleton.mpr same.symm)
          · exact .inl ((Function.update_of_ne self _ _).trans inside)
      · cases taken
  | handler =>
      simp only [step] at taken
      split at taken
      · next line rest first =>
        injection taken with same
        rw [← same]
        exact .handler first
      · cases taken
  | written write =>
      simp only [step] at taken
      split at taken
      · next under =>
        injection taken with same
        rw [← same]
        exact .written under
      · cases taken
  | failed write =>
      simp only [step] at taken
      split at taken
      · next under =>
        injection taken with same
        rw [← same]
        exact .failed under
      · cases taken
  | close =>
      injection taken with same
      rw [← same]
      exact .outside [] rfl rfl (List.append_nil _).symm (List.append_nil _).symm rfl rfl
        nofun (fun _ _ => .inl) fun _ _ => .inl

end Steps

/-- One write is under way, that of the front, if there is one. -/
def Flowing (w : Writer Caller Line) : Prop := w.writes = w.writeQueue.front.toList

/-- The front could not be written, and nothing is. -/
def Stuck (w : Writer Caller Line) : Prop := w.writes = [] ∧ w.writeQueue.items ≠ []

/-- No line is lost and none overtakes another: what was posted is on the wire, in the queue or
waits for its handler, in this order. -/
structure Accounted (w : Writer Caller Line) : Prop where
  written : w.completed ++ w.writeQueue.items = w.handled
  waiting : w.handled ++ w.handlers = w.posted

theorem runHandler_accounted {w : Writer Caller Line} {line : Line} {rest : List Line}
    (accounted : Accounted w) (first : w.handlers = line :: rest) :
    Accounted ({ w with handlers := rest }.runHandler line) := by
  have written : w.completed ++ (w.writeQueue.items ++ [line]) = w.handled ++ [line] := by
    rw [← List.append_assoc, accounted.written]
  have waiting : w.handled ++ [line] ++ rest = w.posted := by
    rw [List.append_assoc, List.singleton_append, ← first, accounted.waiting]
  unfold runHandler
  dsimp only
  split
  · exact ⟨written, waiting⟩
  · exact ⟨written, waiting⟩

/-- A handler that finds the queue empty starts the write of its own line, any other leaves
it to the write that is under way. -/
theorem runHandler_flowing {w : Writer Caller Line} (flowing : Flowing w) (line : Line) :
    Flowing (w.runHandler line) := by
  unfold Flowing Deque.front at flowing
  cases items : w.writeQueue.items with
  | nil =>
      rw [items] at flowing
      simp [Flowing, runHandler, writeNext, Deque.isEmpty, Deque.pushBack, Deque.front, items,
        flowing]
  | cons head rest =>
      rw [items] at flowing
      simp [Flowing, runHandler, Deque.isEmpty, Deque.pushBack, Deque.front, items, flowing]

theorem runHandler_stuck {w : Writer Caller Line} (stuck : Stuck w) (line : Line) :
    Stuck (w.runHandler line) := by
  cases items : w.writeQueue.items with
  | nil => exact absurd items stuck.2
  | cons head rest =>
      simp [Stuck, runHandler, Deque.isEmpty, Deque.pushBack, items, stuck.1]

theorem runHandler_posted (w : Writer Caller Line) (line : Line) :
    (w.runHandler line).posted = w.posted ∧ (w.runHandler line).calls = w.calls := by
  unfold runHandler
  dsimp only
  split
  · exact ⟨rfl, rfl⟩
  · exact ⟨rfl, rfl⟩

theorem runHandler_completed (w : Writer Caller Line) (line : Line) :
    (w.runHandler line).completed = w.completed := by
  unfold runHandler
  dsimp only
  split
  · rfl
  · rfl

theorem Flowing.front {w : Writer Caller Line} (flowing : Flowing w) {write : Write Line}
    (under : write ∈ w.writes) : ∃ rest, w.writeQueue.items = write.line :: rest ∧
      write.place = w.writeQueue.popped ∧ w.writes = [write] := by
  unfold Flowing Deque.front at flowing
  cases items : w.writeQueue.items with
  | nil =>
      rw [flowing, items] at under
      cases under
  | cons head rest =>
      rw [items] at flowing
      rw [flowing] at under
      have same := List.mem_singleton.mp under
      rw [same]
      exact ⟨rest, rfl, rfl, flowing⟩

variable [DecidableEq Line]

theorem onWritten_accounted {w : Writer Caller Line} (accounted : Accounted w)
    (flowing : Flowing w) {write : Write Line} (under : write ∈ w.writes) :
    Accounted (w.onWritten write) := by
  rcases flowing.front under with ⟨rest, items, _, _⟩
  have written : w.completed ++ [write.line] ++ w.writeQueue.popFront.items = w.handled := by
    rw [Deque.popFront, items, List.tail_cons, List.append_assoc, List.singleton_append, ← items]
    exact accounted.written
  unfold onWritten
  dsimp only
  split
  · exact ⟨written, accounted.waiting⟩
  · exact ⟨written, accounted.waiting⟩

theorem onWritten_flowing {w : Writer Caller Line} (flowing : Flowing w) {write : Write Line}
    (under : write ∈ w.writes) : Flowing (w.onWritten write) := by
  rcases flowing.front under with ⟨rest, items, _, alone⟩
  cases rest with
  | nil =>
      simp [Flowing, onWritten, Deque.isEmpty, Deque.popFront, Deque.front, items, alone]
  | cons next others =>
      simp [Flowing, onWritten, writeNext, Deque.isEmpty, Deque.popFront, Deque.front, items,
        alone]

theorem onWritten_posted (w : Writer Caller Line) (write : Write Line) :
    (w.onWritten write).posted = w.posted ∧ (w.onWritten write).calls = w.calls := by
  unfold onWritten
  dsimp only
  split
  · exact ⟨rfl, rfl⟩
  · exact ⟨rfl, rfl⟩

theorem onError_stuck {w : Writer Caller Line} (flowing : Flowing w) {write : Write Line}
    (under : write ∈ w.writes) : Stuck (w.onError write) := by
  rcases flowing.front under with ⟨rest, items, _, alone⟩
  simp [Stuck, onError, items, alone]

omit [DecidableEq Line] in
theorem Accounted.posting {w next : Writer Caller Line} (accounted : Accounted w)
    {more : List Line} (writeQueue : next.writeQueue = w.writeQueue)
    (handlers : next.handlers = w.handlers ++ more) (posted : next.posted = w.posted ++ more)
    (handled : next.handled = w.handled) (completed : next.completed = w.completed) :
    Accounted next where
  written := by rw [completed, writeQueue, handled, accounted.written]
  waiting := by rw [handled, handlers, posted, ← accounted.waiting, List.append_assoc]

structure Kept (w : Writer Caller Line) : Prop where
  accounted : Accounted w
  writing : Flowing w ∨ Stuck w

omit [DecidableEq Line] in
theorem Kept.flowing {w : Writer Caller Line} (kept : Kept w) {write : Write Line}
    (under : write ∈ w.writes) : Flowing w := by
  rcases kept.writing with flowing | stuck
  · exact flowing
  · rw [stuck.1] at under
    cases under

variable [DecidableEq Caller]

theorem step_flowing {w next : Writer Caller Line} {label : Label Caller Line}
    (flowing : Flowing w) (noError : label.isError = false) (taken : step w label = some next) :
    Flowing next := by
  cases step_change taken with
  | outside more writeQueue writes _ _ _ _ _ _ _ =>
      unfold Flowing
      rw [writes, writeQueue]
      exact flowing
  | @handler line rest first =>
      have popped : Flowing { w with handlers := rest } := flowing
      exact runHandler_flowing popped line
  | written under => exact onWritten_flowing flowing under
  | failed under => cases noError

theorem step_stuck {w next : Writer Caller Line} {label : Label Caller Line} (stuck : Stuck w)
    (taken : step w label = some next) : Stuck next ∧ next.completed = w.completed := by
  cases step_change taken with
  | outside more writeQueue writes _ _ _ completed _ _ _ =>
      unfold Stuck
      rw [writes, writeQueue]
      exact ⟨stuck, completed⟩
  | @handler line rest first =>
      have popped : Stuck { w with handlers := rest } := stuck
      exact ⟨runHandler_stuck popped line, runHandler_completed _ line⟩
  | written under =>
      rw [stuck.1] at under
      cases under
  | failed under =>
      rw [stuck.1] at under
      cases under

theorem step_kept {w next : Writer Caller Line} {label : Label Caller Line} (kept : Kept w)
    (taken : step w label = some next) : Kept next := by
  cases step_change taken with
  | outside more writeQueue writes handlers posted handled completed _ _ _ =>
      refine ⟨kept.accounted.posting writeQueue handlers posted handled completed, ?_⟩
      unfold Flowing Stuck
      rw [writes, writeQueue]
      exact kept.writing
  | @handler line rest first =>
      refine ⟨runHandler_accounted kept.accounted first, ?_⟩
      have popped : Flowing { w with handlers := rest } ∨ Stuck { w with handlers := rest } :=
        kept.writing
      rcases popped with flowing | stuck
      · exact .inl (runHandler_flowing flowing line)
      · exact .inr (runHandler_stuck stuck line)
  | written under =>
      have flowing := kept.flowing under
      exact ⟨onWritten_accounted kept.accounted flowing under,
        .inl (onWritten_flowing flowing under)⟩
  | failed under =>
      have flowing := kept.flowing under
      exact ⟨⟨kept.accounted.written, kept.accounted.waiting⟩, .inr (onError_stuck flowing under)⟩

omit [DecidableEq Line] [DecidableEq Caller] in
theorem kept_initial : Kept ({} : Writer Caller Line) := ⟨⟨rfl, rfl⟩, .inl rfl⟩

/-- The queue is lossless and first in first out, with one write in flight. -/
structure InOrder (w : Writer Caller Line) : Prop extends Accounted w where
  single : w.writes.length ≤ 1
  busy : w.writes ≠ [] ↔ w.writeQueue.items ≠ []
  front : ∀ write ∈ w.writes, w.writeQueue.front = some write

omit [DecidableEq Line] [DecidableEq Caller] in
theorem InOrder.of_flowing {w : Writer Caller Line} (accounted : Accounted w)
    (flowing : Flowing w) : InOrder w := by
  unfold Flowing at flowing
  refine ⟨accounted, ?_, ?_, ?_⟩
  · rw [flowing]
    exact Option.length_toList_le
  · rw [flowing, Deque.front]
    cases w.writeQueue.items with
    | nil => simp
    | cons head rest => simp
  · intro write under
    rw [flowing] at under
    exact Option.mem_toList.mp under

/-- Until a write fails, every run keeps the order. -/
theorem write_queue_in_order {labels : List (Label Caller Line)} {last : Writer Caller Line}
    (whole : run step {} labels = some last)
    (noError : ∀ label ∈ labels, label.isError = false) : InOrder last := by
  have kept := run_invariant (fun _ _ _ => step_kept) kept_initial whole
  have start : Flowing ({} : Writer Caller Line) := rfl
  have flowing := run_keeps (fun _ _ _ => step_flowing) start (along_of_forall noError _) whole
  exact .of_flowing kept.accounted flowing

def greeting : List (Label Thread Bytes) :=
  [.call .io (utf8 "INFO"), .post .io, .call .monitor (utf8 "MSG"), .handler, .post .monitor,
    .call .io (utf8 "+OK"), .handler, .written ⟨0, utf8 "INFO"⟩, .post .io, .handler,
    .written ⟨1, utf8 "MSG"⟩]

theorem write_queue_in_order_greeting : ∃ last, run step {} greeting = some last ∧
    last.completed = [utf8 "INFO", utf8 "MSG"] ∧ InOrder last := by
  have sent : (run step {} greeting).map completed = some [utf8 "INFO", utf8 "MSG"] := by decide
  rcases Option.map_eq_some_iff.mp sent with ⟨last, whole, completed⟩
  exact ⟨last, whole, completed, write_queue_in_order whole (by decide)⟩

/-- A `sendLine` that finds the client open is given such a line. -/
def Sends (given : Line → Prop) (w : Writer Caller Line) : Label Caller Line → Prop
  | .call _ line => w.isOpen = true → given line
  | _ => True

structure Given (given : Line → Prop) (w : Writer Caller Line) : Prop where
  inside : ∀ caller line, w.calls caller = some line → given line
  posted : ∀ line ∈ w.posted, given line

theorem step_given {given : Line → Prop} {w next : Writer Caller Line}
    {label : Label Caller Line} (known : Given given w) (sends : Sends given w label)
    (taken : step w label = some next) : Given given next := by
  cases step_change taken with
  | outside more _ _ _ posted _ _ sent calls _ =>
      constructor
      · intro caller line inside
        rcases calls caller line inside with before | ⟨called, found⟩
        · exact known.inside caller line before
        · rw [called] at sends
          exact sends found
      · intro line inside
        rw [posted] at inside
        rcases List.mem_append.mp inside with before | fresh
        · exact known.posted line before
        · rcases sent line fresh with ⟨caller, held⟩
          exact known.inside caller line held
  | @handler line rest first =>
      have same := runHandler_posted { w with handlers := rest } line
      constructor
      · rw [same.2]
        exact known.inside
      · rw [same.1]
        exact known.posted
  | @written write under =>
      have same := onWritten_posted w write
      constructor
      · rw [same.2]
        exact known.inside
      · rw [same.1]
        exact known.posted
  | failed under => exact ⟨known.inside, known.posted⟩

/-- Nothing is posted but what a `sendLine` that found the client open was given. -/
theorem posted_given {given : Line → Prop} {labels : List (Label Caller Line)}
    {last : Writer Caller Line} (sends : Along step (Sends given) {} labels)
    (whole : run step {} labels = some last) : ∀ line ∈ last.posted, given line :=
  (run_keeps (fun _ _ _ => step_given) ⟨nofun, nofun⟩ sends whole).posted

theorem step_leaves {w next : Writer Caller Line} {label : Label Caller Line} {caller : Caller}
    {line : Line} (given : w.calls caller = some line ∨ line ∈ w.posted)
    (taken : step w label = some next) : next.calls caller = some line ∨ line ∈ next.posted := by
  cases step_change taken with
  | outside more _ _ _ posted _ _ _ _ leaves =>
      rw [posted, List.mem_append]
      rcases given with inside | before
      · exact (leaves caller line inside).imp_right .inr
      · exact .inr (.inl before)
  | @handler waiting rest first =>
      have same := runHandler_posted { w with handlers := rest } waiting
      rw [same.1, same.2]
      exact given
  | @written write under =>
      have same := onWritten_posted w write
      rw [same.1, same.2]
      exact given
  | failed under => exact given

/-- A `sendLine` that found the client open does not return before its line is posted. -/
theorem calls_posted {w last : Writer Caller Line} {labels : List (Label Caller Line)}
    {caller : Caller} {line : Line} (inside : w.calls caller = some line)
    (later : run step w labels = some last) (returned : last.calls caller = none) :
    line ∈ last.posted := by
  rcases run_invariant (fun _ _ _ => step_leaves) (.inl inside) later with still | posted
  · rw [returned] at still
    cases still
  · exact posted

theorem completed_prefix {labels : List (Label Caller Line)} {last : Writer Caller Line}
    (whole : run step {} labels = some last) : last.completed <+: last.posted := by
  have accounted := (run_invariant (fun _ _ _ => step_kept) kept_initial whole).accounted
  rw [← accounted.waiting, ← accounted.written, List.append_assoc]
  exact List.prefix_append _ _

theorem stuck_run {labels : List (Label Caller Line)} {w last : Writer Caller Line}
    (stuck : Stuck w) (whole : run step w labels = some last) :
    Stuck last ∧ last.completed = w.completed := by
  have keeps : ∀ (s : Writer Caller Line) label next, Stuck s ∧ s.completed = w.completed →
      step s label = some next → Stuck next ∧ next.completed = w.completed := by
    intro s label next same taken
    have moved := step_stuck same.1 taken
    exact ⟨moved.1, moved.2.trans same.2⟩
  exact run_invariant keeps ⟨stuck, rfl⟩ whole

/-- Behind a write error nothing more is written, and what was not is still in the queue. -/
theorem nothing_behind_error {before after : List (Label Caller Line)}
    {w next last : Writer Caller Line} {write : Write Line} (whole : run step {} before = some w)
    (failed : step w (.failed write) = some next) (later : run step next after = some last) :
    last.writes = [] ∧ last.completed = w.completed ∧ last.writeQueue.items ≠ [] := by
  have kept := run_invariant (fun _ _ _ => step_kept) kept_initial whole
  simp only [step] at failed
  split at failed
  · next under =>
    injection failed with same
    rw [← same] at later
    have stuck := onError_stuck (kept.flowing under) under
    have still := stuck_run stuck later
    exact ⟨still.1.1, still.2, still.1.2⟩
  · cases failed

end Writer

theorem Emitted.of_prefix {events : List Event} {lines first : List (Thread × Line)}
    (order : Emitted events lines) (part : first <+: lines) : Emitted events first := by
  intro thread
  have chosen := part.filter fun sent => decide (sent.1 = thread)
  exact (chosen.map Prod.snd).trans (order thread)

/-- A client that is posted the lines of both threads in their order hears of an id before it
gets a message with it. -/
theorem announced_on_wire {parse : Bytes → Except Exc JsonText.Value} {port : UInt16}
    {labels : List Label} {last : Machine} (reached : run (step parse port) {} labels = some last)
    {writes : List (Writer.Label Thread (Thread × Line))} {w : Writer Thread (Thread × Line)}
    (written : run Writer.step {} writes = some w) (order : Emitted last.events w.posted) :
    AnnouncedFirst (w.completed.map Prod.snd) := by
  have kept := traced reached
  have wire := order.of_prefix (Writer.completed_prefix written)
  exact kept.told.first.emitted wire kept.replying.sent

end Arcal.Lacal
