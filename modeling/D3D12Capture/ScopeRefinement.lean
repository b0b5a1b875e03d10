import D3D12Capture.CallMatching

/-
This file proves that the call-scope counters implement the call stacks of `OpenCalls`: along a
well-nested run in which no thread reaches `2 ^ 32` open calls, every thread's `call_scope_` is
the number of calls the thread has open. The proof is a simulation. One step of the counters is
one step of the stacks (`CountsOpenCalls.step`): the depth bound keeps `++` below the wrap, and
well-nestedness keeps `--` above zero. The run follows by induction on its length.

What the stubs rely on follows from it: `IncrementCallScope` returns the depth of the call it
opens, which is `1` exactly for a call made while its thread had no call open; the
`DecrementCallScope` that closes a call returns one less and leaves the counter the call found;
no decrement runs on a zero counter; and what a thread's steps return does not depend on the
other threads.
-/

namespace Gfxrecon.Encode

variable {Thread : Type} [DecidableEq Thread]

/-! ### The counters count the open calls -/

/-- Every thread's counter is the number of calls the thread has open. -/
def CountsOpenCalls (callScope : Thread → UInt32) (calls : Thread → List Nat) : Prop :=
  ∀ thread, (callScope thread).toNat = (calls thread).length

/-- One step of the counters is one step of the stacks, as long as it leaves its thread fewer
than `2 ^ 32` calls open. -/
theorem CountsOpenCalls.step {callScope : Thread → UInt32} {before calls : Thread → List Nat}
    (counts : CountsOpenCalls callScope before) {position : Nat} {step : ScopeStep Thread}
    (stepped : openCallsStep before position step = some calls)
    (bounded : (calls step.thread).length < UInt32.size) :
    CountsOpenCalls (callScopeStep callScope step).2 calls := by
  intro thread
  rcases openCallsStep_cases stepped thread with
    ⟨rfl, pushed⟩ | ⟨rfl, top, popped⟩ | ⟨other, same⟩
  · rw [ScopeStep.thread_increment, pushed, List.length_cons, ← counts] at bounded
    rw [callScopeStep_increment_self, toNat_add_one_of_lt bounded, counts, pushed,
      List.length_cons]
  · have nonzero : callScope thread ≠ 0 := fun zero => by
      have counted := counts thread
      rw [zero, popped] at counted
      cases counted
    rw [callScopeStep_decrement_self, toNat_sub_one_of_ne_zero nonzero, counts, popped,
      List.length_cons, Nat.add_sub_cancel]
  · rw [callScopeStep_of_ne _ _ other, same]
    exact counts thread

/-- Within the depth bound, the counters after every prefix of a run count the calls open
after it. -/
theorem countsOpenCalls_callScopeAt {run : List (ScopeStep Thread)} (bounded : DepthBelow run)
    {steps : Nat} {calls : Thread → List Nat} (ran : openCallsAt run steps = some calls) :
    CountsOpenCalls (callScopeAt run steps) calls := by
  induction steps generalizing calls with
  | zero =>
    rw [openCallsAt_zero, Option.some.injEq] at ran
    subst ran
    exact fun _ => rfl
  | succ steps inductionHypothesis =>
    rcases openCallsAt_succ_cases ran with ⟨past, earlier⟩ | ⟨step, before, found, earlier, stepped⟩
    · rw [callScopeAt_succ_of_none past]
      exact inductionHypothesis earlier
    · rw [callScopeAt_succ found]
      exact (inductionHypothesis earlier).step stepped (bounded _ _ _ ran)

/-- On a well-nested run within the depth bound, every thread's counter is, after every prefix,
the number of calls the thread has open. -/
theorem openCountAt_eq_callScopeAt {run : List (ScopeStep Thread)} (nested : WellNested run)
    (bounded : DepthBelow run) (steps : Nat) (thread : Thread) :
    openCountAt run steps thread = some (callScopeAt run steps thread).toNat := by
  obtain ⟨calls, ran⟩ := nested.exists_openCallsAt steps
  rw [openCountAt, ran, Option.map_some', countsOpenCalls_callScopeAt bounded ran thread]

/-- On a well-nested run within the depth bound, an entry adds one to its thread's counter, with
no wrap. -/
theorem callScopeAt_succ_toNat_of_increment {run : List (ScopeStep Thread)}
    (nested : WellNested run) (bounded : DepthBelow run) {position : Nat} {thread : Thread}
    (entered : run[position]? = some (.increment thread)) :
    (callScopeAt run (position + 1) thread).toNat =
      (callScopeAt run position thread).toNat + 1 := by
  have grown := openCountAt_succ_increment entered
  rwa [openCountAt_eq_callScopeAt nested bounded, openCountAt_eq_callScopeAt nested bounded,
    Option.map_some', Option.some.injEq] at grown

theorem callScopeAt_succ_ne_zero_of_increment {run : List (ScopeStep Thread)}
    (nested : WellNested run) (bounded : DepthBelow run) {position : Nat} {thread : Thread}
    (entered : run[position]? = some (.increment thread)) :
    callScopeAt run (position + 1) thread ≠ 0 := fun zero => by
  have grown := callScopeAt_succ_toNat_of_increment nested bounded entered
  rw [zero, UInt32.toNat_zero] at grown
  exact Nat.succ_ne_zero _ grown.symm

/-! ### The call-scope contract -/

/-- What the call scope promises along a run. -/
structure CallScopeContract (run : List (ScopeStep Thread)) : Prop where
  /-- After every prefix, every thread's counter is the number of calls the thread has open. -/
  counts_open : ∀ steps thread,
    openCountAt run steps thread = some (callScopeAt run steps thread).toNat
  /-- `IncrementCallScope` returns the number of calls its thread has open once it has run, the
  call it opens included. -/
  increment_returns_depth : ∀ position thread, run[position]? = some (.increment thread) →
    (callScopeReturns run)[position]?.map UInt32.toNat = openCountAt run (position + 1) thread
  /-- It returns `1` exactly when its thread had no call open: the call is not nested in
  another call of the thread. -/
  increment_returns_one_iff : ∀ position thread, run[position]? = some (.increment thread) →
    ((callScopeReturns run)[position]? = some 1 ↔ openCountAt run position thread = some 0)
  /-- The `DecrementCallScope` that closes a call returns one less than the call's
  `IncrementCallScope`. -/
  closing_returns_pred : ∀ thread entry exit, Closes run thread entry exit →
    ∃ depth, (callScopeReturns run)[entry]?.map UInt32.toNat = some (depth + 1) ∧
      (callScopeReturns run)[exit]?.map UInt32.toNat = some depth
  /-- Once a call has closed, its thread's counter is back to what it was when the call began. -/
  closing_restores : ∀ thread entry exit, Closes run thread entry exit →
    callScopeAt run (exit + 1) thread = callScopeAt run entry thread
  /-- No `DecrementCallScope` runs on a zero counter: the counter never wraps below zero. -/
  decrement_nonzero : ∀ position thread, run[position]? = some (.decrement thread) →
    callScopeAt run position thread ≠ 0
  /-- What a thread's steps return is the same in every run in which the thread runs the same
  steps, whatever the other threads run and wherever their steps fall. -/
  returns_independent : ∀ thread (other : List (ScopeStep Thread)),
    ownSteps thread other = ownSteps thread run → returnsOn thread other = returnsOn thread run

/-- The call scope keeps its contract along every well-nested run, on any number of threads, in
which no thread reaches `2 ^ 32` open calls. -/
theorem callScopeContract_of_wellNested (run : List (ScopeStep Thread)) (nested : WellNested run)
    (bounded : DepthBelow run) : CallScopeContract run := by
  have counts := openCountAt_eq_callScopeAt nested bounded
  refine {
    counts_open := counts
    increment_returns_depth := fun position thread found => ?depth
    increment_returns_one_iff := fun position thread found => ?outermost
    closing_returns_pred := fun thread entry exit closing => ?closingValue
    closing_restores := fun thread entry exit closing => ?restored
    decrement_nonzero := fun position thread found => ?nonzero
    returns_independent := fun thread other same => ?independent }
  case depth =>
    rw [callScopeReturns_getElem? found, counts]
    rfl
  case outermost =>
    have grown := openCountAt_succ_increment found
    rw [counts, counts, Option.map_some', Option.some.injEq] at grown
    rw [callScopeReturns_getElem? found, counts, Option.some.injEq, Option.some.injEq,
      ScopeStep.thread_increment]
    constructor
    · intro one
      rw [one] at grown
      exact (Nat.succ_inj'.mp grown).symm
    · intro zero
      exact UInt32.toNat.inj (by rw [grown, zero]; rfl)
  case closingValue =>
    obtain ⟨-, entered, depth, -, afterEntry, afterExit⟩ := closing.openCounts
    rw [counts, Option.some.injEq] at afterEntry afterExit
    refine ⟨depth, ?_, ?_⟩
    · rw [callScopeReturns_getElem? entered, Option.map_some', ScopeStep.thread_increment,
        afterEntry]
    · rw [callScopeReturns_getElem? closing.1, Option.map_some', ScopeStep.thread_decrement,
        afterExit]
  case restored =>
    obtain ⟨-, -, depth, atEntry, -, afterExit⟩ := closing.openCounts
    rw [counts, Option.some.injEq] at atEntry afterExit
    exact UInt32.toNat.inj (afterExit.trans atEntry.symm)
  case nonzero =>
    intro zero
    obtain ⟨depth, counted⟩ := nested.openCountAt_decrement found
    rw [counts, zero, Option.some.injEq] at counted
    cases counted
  case independent =>
    rw [returnsOn_eq, returnsOn_eq, same]

/-- Two threads whose steps interleave: thread `0` makes a call with one nested call, thread `1`
makes two calls in a row, and the run stops inside the second. -/
def interleavedRun : List (ScopeStep Nat) :=
  [.increment 0, .increment 1, .increment 0, .decrement 1, .decrement 0, .increment 1, .decrement 0]

theorem callScopeContract_interleavedRun :
    WellNested interleavedRun ∧ DepthBelow interleavedRun ∧ CallScopeContract interleavedRun :=
  ⟨by decide, depthBelow_of_length_lt (by decide),
    callScopeContract_of_wellNested interleavedRun (by decide) (depthBelow_of_length_lt (by decide))⟩

example : callScopeReturns interleavedRun = [1, 1, 2, 0, 1, 1, 0] := by decide

/-! ### Past the depth bound -/

/-- On a well-nested run, with or without the depth bound, every thread's counter is the number
of calls the thread has open, modulo `2 ^ 32`. -/
theorem openCountAt_mod_eq_callScopeAt {run : List (ScopeStep Thread)} (nested : WellNested run)
    (steps : Nat) (thread : Thread) :
    (openCountAt run steps thread).map (· % UInt32.size) =
      some (callScopeAt run steps thread).toNat := by
  have law := callScopeAfter_toNat_mod initialCallScope (run.take steps) thread
  have below := UInt32.toNat_lt_size (callScopeAt run steps thread)
  rw [nested.openCountAt_eq, Option.map_some', Option.some.injEq]
  rw [callScopeAt] at below ⊢
  generalize (callScopeAfter initialCallScope (run.take steps) thread).toNat = counter
    at law below ⊢
  simp only [initialCallScope, UInt32.toNat_zero, Nat.zero_add, UInt32.size] at law below ⊢
  have balanced := (wellNested_iff_count_le run).mp nested steps thread
  omega

/-- The depth bound is needed: on a well-nested run, the `IncrementCallScope` that brings its
thread to `2 ^ 32` open calls returns `0`, not the depth of the call it opens. -/
theorem callScopeReturns_eq_zero_of_openCountAt_size {run : List (ScopeStep Thread)}
    (nested : WellNested run) {position : Nat} {thread : Thread}
    (entered : run[position]? = some (.increment thread))
    (deep : openCountAt run (position + 1) thread = some UInt32.size) :
    (callScopeReturns run)[position]? = some 0 := by
  have wrapped := openCountAt_mod_eq_callScopeAt nested (position + 1) thread
  rw [deep, Option.map_some', Nat.mod_self, Option.some.injEq] at wrapped
  rw [callScopeReturns_getElem? entered, ScopeStep.thread_increment]
  exact congrArg some (UInt32.toNat.inj wrapped.symm)

/-- Thread `0` enters `2 ^ 32` nested calls: the last `IncrementCallScope` returns `0`. -/
theorem callScopeReturns_replicate_wraps :
    WellNested (List.replicate UInt32.size (ScopeStep.increment 0)) ∧
      (List.replicate UInt32.size (ScopeStep.increment 0))[UInt32.size - 1]? =
        some (.increment 0) ∧
      openCountAt (List.replicate UInt32.size (ScopeStep.increment 0)) (UInt32.size - 1 + 1) 0 =
        some UInt32.size ∧
      (callScopeReturns (List.replicate UInt32.size (ScopeStep.increment 0)))[UInt32.size - 1]? =
        some 0 := by
  -- The run has `2 ^ 32` steps: every fact about it is rewritten, never evaluated.
  have nested : WellNested (List.replicate UInt32.size (ScopeStep.increment 0)) :=
    (wellNested_iff_count_le _).mpr fun steps thread => by
      simp [List.take_replicate, List.count_replicate]
  have entered : (List.replicate UInt32.size (ScopeStep.increment 0))[UInt32.size - 1]? =
      some (.increment 0) := by
    rw [List.getElem?_replicate, if_pos (by decide)]
  have deep : openCountAt (List.replicate UInt32.size (ScopeStep.increment 0))
      (UInt32.size - 1 + 1) 0 = some UInt32.size := by
    rw [nested.openCountAt_eq, Nat.sub_add_cancel (by decide), List.take_replicate, Nat.min_self,
      List.count_replicate_self, List.count_replicate, if_neg (by simp), Nat.sub_zero]
  exact ⟨nested, entered, deep,
    callScopeReturns_eq_zero_of_openCountAt_size nested entered deep⟩

end Gfxrecon.Encode
