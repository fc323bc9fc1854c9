import Arcal.Dds.Locking
import Mathlib.Algebra.BigOperators.Group.Finset.Basic
import Mathlib.Data.Fintype.Basic
import Mathlib.Tactic.Abel

/-! Where the samples go that a take removes from the DDS cache: each is handed to
`dispatchOne`, or on its way there in the batch of some thread, or lost. -/

namespace Arcal.Dds

open Schema Cdr Transition

variable {schema : SchemaModel} {Tid L : Type}

def Dispatching.pending {M : Type} : Dispatching L M → List CachedSample
  | .next pending => pending
  | .callListener _ _ pending => pending
  | .lockMu _ pending => pending
  | .snapshot _ pending => pending
  | .callSnapshot _ _ pending => pending

def DispatchResult.pending {M : Type} : DispatchResult L M → List CachedSample
  | .more at' => at'.pending
  | _ => []

def AppPc.inFlight {M : Type} : AppPc L M → List CachedSample
  | .readDispatch _ at' => at'.pending
  | _ => []

def LoopPc.inFlight {M : Type} : LoopPc L M → List CachedSample
  | .lockDeliver samples | .recheck samples => samples
  | .deliver at' => at'.pending
  | _ => []

def State.inFlight {M : Type} [Fintype Tid] (s : State Tid L M) : Multiset CachedSample :=
  ∑ t, ((s.app t).inFlight : Multiset CachedSample) + (s.loop.inFlight : Multiset CachedSample)

/-- Every valid sample that was taken has been handed to `dispatchOne` exactly once, or is
still to be handed to it exactly once. -/
def State.HandedOnce {M : Type} [Fintype Tid] (s : State Tid L M) : Prop :=
  ∀ c ∈ s.shared.taken, s.shared.handed.count c + s.inFlight.count c = 1

/-- A sample that makes `dispatchOne` throw is the last of its batch. -/
def Dispatching.Kept {M : Type} (cfg : ReaderConfig schema) : Dispatching L M → Prop
  | .next (s :: pending) =>
      pending = [] ∨ ∀ e, openSample cfg.bridge cfg.messageType s.sample ≠ .error e
  | _ => True

/-- A read asks for everything that is cached (0 is no limit) or for at least as much. -/
def AppPc.Kept (cfg : ReaderConfig schema) (sh : Shared Tid L (Accessor schema)) :
    AppPc L (Accessor schema) → Prop
  | .readTake numberOfMessages _ =>
      numberOfMessages = 0 ∨ (validOf sh.cache).length ≤ numberOfMessages
  | .readDispatch _ at' => at'.Kept cfg
  | _ => True

/-- The callback is still set when a background batch comes to it. -/
def LoopPc.Kept (cfg : ReaderConfig schema) (sh : Shared Tid L (Accessor schema)) :
    LoopPc L (Accessor schema) → Prop
  | .recheck _ => sh.callback = true
  | .deliver at' => at'.Kept cfg
  | _ => True

/-- No read takes more than it asked for, no background batch comes to a cleared callback,
and no sample that makes `dispatchOne` throw has others behind it. -/
def Lossless (cfg : ReaderConfig schema) (s : State Tid L (Accessor schema)) : Label Tid L → Prop
  | .app t => (s.app t).Kept cfg s.shared
  | .background => s.loop.Kept cfg s.shared
  | _ => True

/-- From before a step to after it: `arrived` samples were taken from the cache and `dropped`
samples, in the hands of the thread before or just taken, are with nobody any more. -/
structure Balance {M : Type} (sh sh' : Shared Tid L M)
    (mine mine' arrived dropped : List CachedSample) : Prop where
  taken : sh'.taken = sh.taken ++ arrived
  moved : sh'.handed ++ mine' ++ dropped = sh.handed ++ mine ++ arrived
  cache : arrived = [] ∧ sh'.cache = sh.cache ∨ arrived = validOf sh.cache ∧ sh'.cache = []
  arrivals : sh'.arrivals = sh.arrivals

theorem Balance.still {M : Type} {sh sh' : Shared Tid L M} {mine mine' : List CachedSample}
    (taken : sh'.taken = sh.taken) (handed : sh'.handed = sh.handed) (same : mine' = mine)
    (cache : sh'.cache = sh.cache) (arrivals : sh'.arrivals = sh.arrivals) :
    Balance sh sh' mine mine' [] [] :=
  ⟨by rw [taken, List.append_nil], by rw [handed, same], .inl ⟨rfl, cache⟩, arrivals⟩

variable {cfg : ReaderConfig schema}

theorem dispatchStep_balance {self : Thread Tid} {callListener : Option L}
    {sh : Shared Tid L (Accessor schema)} {at' : Dispatching L (Accessor schema)}
    {moved : Shared Tid L (Accessor schema) × DispatchResult L (Accessor schema)}
    (run : dispatchStep cfg self callListener sh at' = some moved) :
    ∃ dropped, Balance sh moved.1 at'.pending moved.2.pending [] dropped ∧
      (dropped = [] ↔ at'.Kept cfg) := by
  obtain ⟨mu, handed, calls, frame⟩ := dispatchStep_frame run
  have taken : moved.1.taken = sh.taken ++ [] := by rw [frame, List.append_nil]
  have cache : moved.1.cache = sh.cache := by rw [frame]
  have arrivals : moved.1.arrivals = sh.arrivals := by rw [frame]
  cases dispatchStep_move run with
  | throw s pending e opened =>
      refine ⟨pending, ⟨taken, ?_, .inl ⟨rfl, cache⟩, arrivals⟩, ?_⟩
      · simp [DispatchResult.pending, Dispatching.pending]
      · simp [Dispatching.Kept, opened]
  | drop s pending opened =>
      refine ⟨[], ⟨taken, ?_, .inl ⟨rfl, cache⟩, arrivals⟩, ?_⟩
      · simp [DispatchResult.pending, Dispatching.pending]
      · simp [Dispatching.Kept, opened]
  | toListener listener polled s pending msg opened =>
      refine ⟨[], ⟨taken, ?_, .inl ⟨rfl, cache⟩, arrivals⟩, ?_⟩
      · simp [DispatchResult.pending, Dispatching.pending]
      · simp [Dispatching.Kept, opened]
  | toLock background s pending msg opened =>
      refine ⟨[], ⟨taken, ?_, .inl ⟨rfl, cache⟩, arrivals⟩, ?_⟩
      · simp [DispatchResult.pending, Dispatching.pending]
      · simp [Dispatching.Kept, opened]
  | _ => exact ⟨[], .still rfl rfl rfl rfl rfl, by simp [Dispatching.Kept]⟩

theorem takeLoop_unlimited (cache : List CachedSample) : takeLoop 0 [] cache = validOf cache := by
  simp [takeLoop_eq]

theorem takeLoop_split (numberOfMessages : Nat) (cache : List CachedSample) :
    ∃ dropped, takeLoop numberOfMessages [] cache ++ dropped = validOf cache ∧
      (dropped = [] ↔ numberOfMessages = 0 ∨ (validOf cache).length ≤ numberOfMessages) := by
  by_cases unlimited : numberOfMessages = 0
  · refine ⟨[], ?_, by simp [unlimited]⟩
    rw [unlimited, takeLoop_unlimited, List.append_nil]
  · refine ⟨(validOf cache).drop numberOfMessages, ?_, ?_⟩
    · simp [takeLoop_eq, unlimited]
    · simp [unlimited, List.drop_eq_nil_iff]

theorem appStep_balance [DecidableEq L] {t : Tid} {sh : Shared Tid L (Accessor schema)}
    {pc : AppPc L (Accessor schema)}
    {moved : Shared Tid L (Accessor schema) × AppPc L (Accessor schema)}
    (run : appStep cfg t sh pc = some moved) :
    ∃ arrived dropped, Balance sh moved.1 pc.inFlight moved.2.inFlight arrived dropped ∧
      (dropped = [] ↔ pc.Kept cfg sh) := by
  cases appStep_move run with
  | readTake numberOfMessages listener =>
      obtain ⟨dropped, split, kept⟩ := takeLoop_split numberOfMessages sh.cache
      refine ⟨validOf sh.cache, dropped, ⟨rfl, ?_, .inr ⟨rfl, rfl⟩, rfl⟩, kept⟩
      simp only [takeCache, AppPc.inFlight, Dispatching.pending, List.append_assoc, split,
        List.nil_append]
  | readDispatch listener at' inner taken =>
      obtain ⟨dropped, balance, kept⟩ := dispatchStep_balance taken
      have pending : (AppPc.afterDispatch listener inner.2).inFlight = inner.2.pending := by
        cases inner.2 <;> rfl
      refine ⟨[], dropped, ?_, kept⟩
      rw [pending]
      exact balance
  | _ => exact ⟨[], [], .still rfl rfl rfl rfl rfl, by simp [AppPc.Kept]⟩

theorem loopStep_balance {sh : Shared Tid L (Accessor schema)} {pc : LoopPc L (Accessor schema)}
    (some' : ∀ samples, pc = .recheck samples → samples ≠ [])
    {moved : Shared Tid L (Accessor schema) × LoopPc L (Accessor schema)}
    (run : loopStep cfg sh pc = some moved) :
    ∃ arrived dropped, Balance sh moved.1 pc.inFlight moved.2.inFlight arrived dropped ∧
      (dropped = [] ↔ pc.Kept cfg sh) := by
  cases loopStep_move run with
  | quit _ polls =>
      rcases polls with rfl | rfl
      · exact ⟨[], [], .still rfl rfl rfl rfl rfl, by simp [LoopPc.Kept]⟩
      · exact ⟨[], [], .still rfl rfl rfl rfl rfl, by simp [LoopPc.Kept]⟩
  | takeNothing empty =>
      rw [takeLoop_unlimited] at empty
      refine ⟨validOf sh.cache, [], ⟨rfl, ?_, .inr ⟨rfl, rfl⟩, rfl⟩, by simp [LoopPc.Kept]⟩
      simp [takeCache, LoopPc.inFlight, empty]
  | take =>
      refine ⟨validOf sh.cache, [], ⟨rfl, ?_, .inr ⟨rfl, rfl⟩, rfl⟩, by simp [LoopPc.Kept]⟩
      simp [takeCache, LoopPc.inFlight, takeLoop_unlimited]
  | deliver samples set => exact ⟨[], [], .still rfl rfl rfl rfl rfl, by simp [LoopPc.Kept, set]⟩
  | giveUp samples cleared =>
      refine ⟨[], samples, ⟨(List.append_nil _).symm, ?_, .inl ⟨rfl, rfl⟩, rfl⟩, ?_⟩
      · simp [LoopPc.inFlight]
      · simp [LoopPc.Kept, cleared, some' samples rfl]
  | more at' sh' after inner =>
      obtain ⟨dropped, balance, kept⟩ := dispatchStep_balance inner
      exact ⟨[], dropped, balance, kept⟩
  | done at' sh' inner =>
      obtain ⟨dropped, balance, kept⟩ := dispatchStep_balance inner
      exact ⟨[], dropped, balance, kept⟩
  | thrown at' sh' e inner =>
      obtain ⟨dropped, balance, kept⟩ := dispatchStep_balance inner
      exact ⟨[], dropped, ⟨balance.taken, balance.moved, balance.cache, balance.arrivals⟩, kept⟩
  | _ => exact ⟨[], [], .still rfl rfl rfl rfl rfl, by simp [LoopPc.Kept]⟩

theorem AppPc.inFlight_of_starts {M : Type} {pc : AppPc L M} (begun : pc.starts = true) :
    pc.inFlight = [] := by
  cases pc <;> first | rfl | cases begun

theorem Balance.total {M : Type} {sh sh' : Shared Tid L M}
    {mine mine' arrived dropped : List CachedSample} 
    (balance : Balance sh sh' mine mine' arrived dropped)
    {flying flying' : Multiset CachedSample} (swapped : flying' + mine = flying + mine') :
    (sh'.handed : Multiset CachedSample) + flying' + dropped =
      (sh.handed : Multiset CachedSample) + flying + arrived := by
  have moved : (sh'.handed : Multiset CachedSample) + mine' + dropped =
      (sh.handed : Multiset CachedSample) + mine + arrived := by
    simp only [Multiset.coe_add, balance.moved]
  apply add_right_cancel (b := (mine : Multiset CachedSample) + mine')
  calc (sh'.handed : Multiset CachedSample) + flying' + dropped + (mine + mine')
      = (sh'.handed + mine' + dropped) + (flying' + mine) := by abel
    _ = (sh.handed + mine + arrived) + (flying + mine') := by rw [moved, swapped]
    _ = (sh.handed : Multiset CachedSample) + flying + arrived + (mine + mine') := by abel

variable [Fintype Tid] [DecidableEq Tid] [DecidableEq L]
  {s next : State Tid L (Accessor schema)} {label : Label Tid L}

omit [DecidableEq L] in
theorem State.inFlight_withApp (s : State Tid L (Accessor schema)) (t : Tid)
    (moved : Shared Tid L (Accessor schema) × AppPc L (Accessor schema)) :
    (s.withApp t moved).inFlight + ((s.app t).inFlight : Multiset CachedSample) =
      s.inFlight + (moved.2.inFlight : Multiset CachedSample) := by
  have others : ∑ other ∈ Finset.univ.erase t,
        (((s.withApp t moved).app other).inFlight : Multiset CachedSample) =
      ∑ other ∈ Finset.univ.erase t, ((s.app other).inFlight : Multiset CachedSample) := by
    apply Finset.sum_congr rfl
    intro other member
    rw [State.withApp_other _ _ (Finset.ne_of_mem_erase member)]
  have before := Finset.add_sum_erase Finset.univ
    (fun other => ((s.app other).inFlight : Multiset CachedSample)) (Finset.mem_univ t)
  have after := Finset.add_sum_erase Finset.univ
    (fun other => (((s.withApp t moved).app other).inFlight : Multiset CachedSample))
    (Finset.mem_univ t)
  unfold State.inFlight
  rw [← before, ← after, others, State.withApp_self, State.withApp_loop]
  abel

omit [DecidableEq Tid] [DecidableEq L] in
theorem State.inFlight_withLoop (s : State Tid L (Accessor schema))
    (moved : Shared Tid L (Accessor schema) × LoopPc L (Accessor schema)) :
    (s.withLoop moved).inFlight + (s.loop.inFlight : Multiset CachedSample) =
      s.inFlight + (moved.2.inFlight : Multiset CachedSample) := by
  unfold State.inFlight
  rw [State.withLoop_app, State.withLoop_loop]
  abel

/-- What holds of the samples in every reachable state, lost or not. -/
structure State.Accounted (s : State Tid L (Accessor schema)) : Prop where
  batch : ∀ samples, s.loop = .lockDeliver samples ∨ s.loop = .recheck samples → samples ≠ []
  below : (s.shared.handed : Multiset CachedSample) + s.inFlight ≤ s.shared.taken
  distinct : (s.shared.taken ++ s.shared.cache).Nodup
  numbered : ∀ c ∈ s.shared.taken ++ s.shared.cache, c.seq < s.shared.arrivals

theorem keepLast_sublist (depth : Nat) (cache : List CachedSample) :
    (keepLast depth cache).Sublist cache := List.drop_sublist _ _

omit [DecidableEq Tid] [DecidableEq L] in
theorem State.accounted_initial :
    (State.initial (Accessor schema) : State Tid L (Accessor schema)).Accounted where
  batch := by simp [State.initial]
  below := by simp [State.initial, State.inFlight, AppPc.inFlight, LoopPc.inFlight]
  distinct := by simp [State.initial]
  numbered := by simp [State.initial]

structure State.Balanced (s next : State Tid L (Accessor schema))
    (arrived dropped : List CachedSample) : Prop where
  taken : next.shared.taken = s.shared.taken ++ arrived
  moved : (next.shared.handed : Multiset CachedSample) + next.inFlight + dropped =
    s.shared.handed + s.inFlight + arrived

omit [Fintype Tid] [DecidableEq Tid] [DecidableEq L] in
/-- Nothing is taken that was not cached, and nothing is taken twice. -/
theorem Balance.sublist {M : Type} {sh sh' : Shared Tid L M}
    {mine mine' arrived dropped : List CachedSample}
    (balance : Balance sh sh' mine mine' arrived dropped) :
    (sh'.taken ++ sh'.cache).Sublist (sh.taken ++ sh.cache) := by
  rw [balance.taken]
  rcases balance.cache with ⟨none', same⟩ | ⟨all, empty⟩
  · rw [none', same, List.append_nil]
  · rw [all, empty, List.append_nil]
    exact List.Sublist.append_left List.filter_sublist _

omit [DecidableEq Tid] [DecidableEq L] in
theorem State.Accounted.move (accounted : s.Accounted)
    {mine mine' arrived dropped : List CachedSample}
    (balance : Balance s.shared next.shared mine mine' arrived dropped)
    (swapped : next.inFlight + (mine : Multiset CachedSample) = s.inFlight + mine')
    (batch : ∀ samples, next.loop = .lockDeliver samples ∨ next.loop = .recheck samples →
      samples ≠ []) : next.Accounted ∧ s.Balanced next arrived dropped := by
  have total := balance.total swapped
  refine ⟨⟨batch, ?_, ?_, ?_⟩, ⟨balance.taken, total⟩⟩
  · calc (next.shared.handed : Multiset CachedSample) + next.inFlight
        ≤ next.shared.handed + next.inFlight + dropped := Multiset.le_add_right _ _
      _ = s.shared.handed + s.inFlight + arrived := total
      _ ≤ (s.shared.taken : Multiset CachedSample) + arrived :=
          add_le_add accounted.below le_rfl
      _ = next.shared.taken := by rw [Multiset.coe_add, balance.taken]
  · exact balance.sublist.nodup accounted.distinct
  · intro c member
    rw [balance.arrivals]
    exact accounted.numbered c (balance.sublist.subset member)

omit [Fintype Tid] [DecidableEq Tid] [DecidableEq L] in
theorem loopStep_batch {sh : Shared Tid L (Accessor schema)} {pc : LoopPc L (Accessor schema)}
    (before : ∀ samples, pc = .lockDeliver samples ∨ pc = .recheck samples → samples ≠ [])
    {moved : Shared Tid L (Accessor schema) × LoopPc L (Accessor schema)}
    (run : loopStep cfg sh pc = some moved) (samples : List CachedSample)
    (batch : moved.2 = .lockDeliver samples ∨ moved.2 = .recheck samples) : samples ≠ [] := by
  cases loopStep_move run with
  | take some' =>
      rcases batch with same | same
      · injection same with same
        rw [← same]
        exact some'
      · cases same
  | lockDeliver waiting =>
      rcases batch with same | same
      · cases same
      · injection same with same
        rw [← same]
        exact before waiting (.inl rfl)
  | _ => rcases batch with same | same <;> cases same

theorem State.Accounted.step (accounted : s.Accounted) (taken : step cfg s label = some next) :
    next.Accounted ∧ ∃ arrived dropped, s.Balanced next arrived dropped ∧
      (dropped = [] ↔ Lossless cfg s label) := by
  cases label with
  | arrive valid sample =>
      have same := step_arrive taken
      have kept : (next.shared.taken ++ next.shared.cache).Sublist
          (s.shared.taken ++ (s.shared.cache ++ [⟨s.shared.arrivals, valid, sample⟩])) := by
        rw [same]
        exact List.Sublist.append_left (keepLast_sublist _ _) _
      rw [← List.append_assoc] at kept
      refine ⟨⟨?_, ?_, ?_, ?_⟩, [], [], ⟨?_, ?_⟩, by simp [Lossless]⟩
      · rw [same]
        exact accounted.batch
      · rw [same]
        exact accounted.below
      · apply kept.nodup
        rw [List.nodup_append]
        refine ⟨accounted.distinct, List.nodup_singleton _, ?_⟩
        intro old member new new' clash
        have older := accounted.numbered old member
        rw [clash, List.mem_singleton.mp new'] at older
        exact lt_irrefl _ older
      · intro c member
        have arrivals : next.shared.arrivals = s.shared.arrivals + 1 := by rw [same]; rfl
        rw [arrivals]
        rcases List.mem_append.mp (kept.subset member) with old | new
        · exact Nat.lt_succ_of_lt (accounted.numbered c old)
        · rw [List.mem_singleton.mp new]
          exact Nat.lt_succ_self _
      · rw [same]
        exact (List.append_nil _).symm
      · rw [same]
        rfl
  | start t op =>
      obtain ⟨idle, same⟩ := step_start taken
      obtain ⟨closed, frame⟩ := begin_frame s.shared op
      have resting : (begin s.shared op).2.inFlight = (s.app t).inFlight := by
        rw [idle]
        exact AppPc.inFlight_of_starts (begin_starts s.shared op)
      have balance : Balance s.shared (begin s.shared op).1 (s.app t).inFlight
          (begin s.shared op).2.inFlight [] [] := by
        rw [frame]
        exact .still rfl rfl resting rfl rfl
      subst same
      obtain ⟨after, balanced⟩ :=
        accounted.move balance (s.inFlight_withApp t (begin s.shared op)) accounted.batch
      exact ⟨after, [], [], balanced, by simp [Lossless]⟩
  | app t =>
      obtain ⟨moved, ran, same⟩ := step_app taken
      obtain ⟨arrived, dropped, balance, kept⟩ := appStep_balance ran
      subst same
      obtain ⟨after, balanced⟩ :=
        accounted.move balance (s.inFlight_withApp t moved) accounted.batch
      exact ⟨after, arrived, dropped, balanced, kept⟩
  | background =>
      obtain ⟨moved, ran, same⟩ := step_background taken
      obtain ⟨arrived, dropped, balance, kept⟩ :=
        loopStep_balance (fun samples pc => accounted.batch samples (.inr pc)) ran
      subst same
      obtain ⟨after, balanced⟩ := accounted.move balance (s.inFlight_withLoop moved)
        (loopStep_batch accounted.batch ran)
      exact ⟨after, arrived, dropped, balanced, kept⟩

omit [DecidableEq Tid] [DecidableEq L] in
theorem State.Accounted.handedOnce_iff (accounted : s.Accounted) :
    s.HandedOnce ↔ (s.shared.taken : Multiset CachedSample) = s.shared.handed + s.inFlight := by
  have once := (List.nodup_append.mp accounted.distinct).1
  constructor
  · intro handed
    apply le_antisymm _ accounted.below
    rw [Multiset.le_iff_count]
    intro c
    by_cases member : c ∈ s.shared.taken
    · rw [Multiset.count_add, Multiset.coe_count, Multiset.coe_count, handed c member]
      exact List.nodup_iff_count_le_one.mp once c
    · rw [Multiset.coe_count, List.count_eq_zero_of_not_mem member]
      exact Nat.zero_le _
  · intro same c member
    rw [← Multiset.coe_count, ← Multiset.count_add, ← same, Multiset.coe_count]
    exact List.count_eq_one_of_mem once member

omit [DecidableEq Tid] [DecidableEq L] in
theorem State.Balanced.handedOnce_iff {arrived dropped : List CachedSample}
    (balanced : s.Balanced next arrived dropped) (accounted : s.Accounted)
    (after : next.Accounted) : next.HandedOnce ↔ s.HandedOnce ∧ dropped = [] := by
  rw [after.handedOnce_iff, accounted.handedOnce_iff, balanced.taken, ← Multiset.coe_add]
  have total := balanced.moved
  constructor
  · intro same
    have both : (s.shared.taken : Multiset CachedSample) + dropped =
        s.shared.handed + s.inFlight := by
      apply add_right_cancel (b := (arrived : Multiset CachedSample))
      calc (s.shared.taken : Multiset CachedSample) + dropped + arrived
          = s.shared.taken + arrived + dropped := by abel
        _ = next.shared.handed + next.inFlight + dropped := by rw [same]
        _ = s.shared.handed + s.inFlight + arrived := total
    have none' : dropped = [] := by
      have fits := Multiset.card_le_card (both ▸ accounted.below)
      rw [Multiset.card_add, Multiset.coe_card, Multiset.coe_card] at fits
      exact List.eq_nil_of_length_eq_zero (by omega)
    subst none'
    exact ⟨(add_zero _).symm.trans both, rfl⟩
  · intro given
    rcases given with ⟨same, none'⟩
    subst none'
    rw [same, ← total]
    exact add_zero _

/-- When a reader loses no sample it took: exactly in the runs whose steps are all lossless. -/
theorem handedOnce_iff_lossless (cfg : ReaderConfig schema) (labels : List (Label Tid L))
    (s : State Tid L (Accessor schema))
    (whole : run (step cfg) (State.initial (Accessor schema)) labels = some s) :
    s.HandedOnce ↔ Along (step cfg) (Lossless cfg) (State.initial (Accessor schema)) labels := by
  have keeps : ∀ (s : State Tid L (Accessor schema)) label next, s.Accounted →
      step cfg s label = some next → next.Accounted := by
    intro s label next accounted taken
    exact (accounted.step taken).1
  have loses : ∀ (s : State Tid L (Accessor schema)) label next, s.Accounted →
      step cfg s label = some next →
      (next.HandedOnce ↔ s.HandedOnce ∧ Lossless cfg s label) := by
    intro s label next accounted taken
    obtain ⟨after, arrived, dropped, balanced, lossless⟩ := accounted.step taken
    rw [balanced.handedOnce_iff accounted after, lossless]
  have start : (State.initial (Accessor schema) : State Tid L (Accessor schema)).HandedOnce := by
    intro c member
    cases member
  rw [run_iff_along keeps loses State.accounted_initial whole]
  exact and_iff_right start

section Sample

def polling (numberOfMessages : Nat) : List (Label Unit Nat) :=
  [.arrive true wholeHeader, .arrive true wholeHeader, .start () (.readNoWait numberOfMessages 0),
    .app ()]

theorem handedOnce_iff_lossless_polling :
    ∃ s, run (step (sampleReader 2 (by decide))) (State.initial (Accessor sampleSchema))
        (polling 2) = some s ∧ s.shared.taken.length = 2 ∧ s.HandedOnce := by
  have lossless : Along (step (sampleReader 2 (by decide))) (Lossless (sampleReader 2 (by decide)))
      (State.initial (Accessor sampleSchema)) (polling 2) :=
    along_cons rfl trivial <| along_cons rfl trivial <| along_cons rfl trivial <|
      along_cons rfl (.inr (Nat.le_refl 2)) trivial
  obtain ⟨s, whole, two⟩ : ∃ s : State Unit Nat (Accessor sampleSchema),
      run (step (sampleReader 2 (by decide))) (State.initial (Accessor sampleSchema))
        (polling 2) = some s ∧ s.shared.taken.length = 2 := ⟨_, rfl, rfl⟩
  exact ⟨s, whole, two,
    (handedOnce_iff_lossless (sampleReader 2 (by decide)) _ s whole).mpr lossless⟩

/-- Of two cached headers a read of one hands over the first; the second is gone. -/
theorem read_of_one_loses_the_other :
    ∃ s : State Unit Nat (Accessor sampleSchema),
      run (step (sampleReader 2 (by decide))) (State.initial (Accessor sampleSchema))
          (polling 1) = some s ∧
        s.shared.taken.length = 2 ∧ s.shared.cache = [] ∧ ¬ s.HandedOnce := by
  obtain ⟨s, whole, taken, handed, polled, background, cache⟩ :
      ∃ s : State Unit Nat (Accessor sampleSchema),
        run (step (sampleReader 2 (by decide))) (State.initial (Accessor sampleSchema))
            (polling 1) = some s ∧
          s.shared.taken = [⟨0, true, wholeHeader⟩, ⟨1, true, wholeHeader⟩] ∧
          s.shared.handed = [] ∧ (s.app ()).inFlight = [⟨0, true, wholeHeader⟩] ∧
          s.loop.inFlight = [] ∧ s.shared.cache = [] := ⟨_, rfl, rfl, rfl, rfl, rfl, rfl⟩
  refine ⟨s, whole, by rw [taken]; rfl, cache, ?_⟩
  intro once
  have second := once ⟨1, true, wholeHeader⟩ (by rw [taken]; simp)
  simp [State.inFlight, handed, polled, background] at second

end Sample

end Arcal.Dds
