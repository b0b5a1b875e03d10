import D3D12Capture.ScopeRefinement
import Mathlib.Data.UInt

/-
This file proves what the call scope does when a stub's exit goes missing, as when a call leaves
between its `IncrementCallScope` and its `DecrementCallScope` without running the second, or
when an exit runs once too often. Nothing in the two methods brings the counter back in step:
`call_scope_` is a plain `uint32_t`, and two counters of one thread that differ by some amount
before a step differ by the same amount after it (`callScopeAfter_shift`). So one exit lost
moves every later value of its thread up by one, and one exit too many moves them down by one,
while the other threads see nothing of it (`returnsOn_lost_decrement`, which compares the run
with the exit and the run without it, and so reads either way).

Read against the stubs' test `call_scope == 1`, this is what the two faults cost. After a lost
exit no later call of the thread is ever taken for one the application made
(`callScopeReturns_ne_one_of_lost_decrement`). After a spurious exit the test picks out the calls
made with exactly one call open, one level below the application's own
(`callScopeReturns_eq_one_iff_of_spurious_decrement`).
-/

namespace Gfxrecon.Encode

variable {Thread : Type} [DecidableEq Thread]

/-! ### Counters that differ by a constant -/

section Shift

variable {callScope shifted : Thread → UInt32} {thread : Thread} {shift : UInt32}

/-- A step moves two counters of one thread alike: if they differ by `shift` before it, they
differ by `shift` after it. -/
theorem callScopeStep_shift (apart : shifted thread = callScope thread + shift)
    (step : ScopeStep Thread) :
    (callScopeStep shifted step).2 thread = (callScopeStep callScope step).2 thread + shift := by
  rcases callScopeStep_cases callScope step thread with
    ⟨rfl, stepped⟩ | ⟨rfl, stepped⟩ | ⟨other, stepped⟩
  · rw [stepped, callScopeStep_increment_self, apart, add_right_comm]
  · rw [stepped, callScopeStep_decrement_self, apart, add_sub_right_comm]
  · rw [stepped, callScopeStep_of_ne _ _ other, apart]

theorem callScopeAfter_shift (apart : shifted thread = callScope thread + shift)
    (run : List (ScopeStep Thread)) :
    callScopeAfter shifted run thread = callScopeAfter callScope run thread + shift := by
  induction run generalizing callScope shifted with
  | nil => exact apart
  | cons step rest inductionHypothesis =>
    exact inductionHypothesis (callScopeStep_shift apart step)

/-- The steps of one thread return, from counters that differ by `shift`, values that differ by
`shift`. -/
theorem callScopeValues_shift (apart : shifted thread = callScope thread + shift)
    {run : List (ScopeStep Thread)} (own : ∀ step ∈ run, step.thread = thread) :
    callScopeValues shifted run = (callScopeValues callScope run).map (· + shift) := by
  induction run generalizing callScope shifted with
  | nil => rfl
  | cons step rest inductionHypothesis =>
    have later := inductionHypothesis (callScopeStep_shift apart step)
      fun step member => own step (List.mem_cons_of_mem _ member)
    rw [callScopeValues, callScopeValues, List.map_cons, callScopeStep_fst, callScopeStep_fst,
      own step (List.mem_cons_self _ _), callScopeStep_shift apart, later]

end Shift

/-! ### One exit lost, or one too many -/

theorem getElem?_append_cons_of_le {α : Type} {pre post : List α} {step : α} {position : Nat}
    (later : pre.length ≤ position) :
    (pre ++ step :: post)[position + 1]? = (pre ++ post)[position]? := by
  rw [List.getElem?_append_right (by omega), List.getElem?_append_right later,
    Nat.sub_add_comm later, List.getElem?_cons_succ]

/-- Without the exit, its thread's counter is one more, at every later point of the run, than it
is with it. -/
theorem callScopeAt_lost_decrement (pre post : List (ScopeStep Thread)) (thread : Thread)
    (steps : Nat) :
    callScopeAt (pre ++ post) (pre.length + steps) thread =
      callScopeAt (pre ++ .decrement thread :: post) (pre.length + steps + 1) thread + 1 := by
  rw [callScopeAt, callScopeAt, List.take_append, Nat.add_assoc, List.take_append,
    List.take_succ_cons, callScopeAfter_append, callScopeAfter_append, callScopeAfter]
  exact callScopeAfter_shift (by rw [callScopeStep_decrement_self, sub_add_cancel]) _

/-- Without the exit, every later step of its thread returns one more than it does with it. -/
theorem callScopeReturns_lost_decrement {pre post : List (ScopeStep Thread)} {thread : Thread}
    {position : Nat} (later : pre.length ≤ position) {step : ScopeStep Thread}
    (found : (pre ++ post)[position]? = some step) (own : step.thread = thread) :
    (callScopeReturns (pre ++ post))[position]? =
      (callScopeReturns (pre ++ .decrement thread :: post))[position + 1]?.map (· + 1) := by
  obtain ⟨steps, rfl⟩ := Nat.exists_eq_add_of_le later
  rw [callScopeReturns_getElem? found,
    callScopeReturns_getElem? ((getElem?_append_cons_of_le later).trans found), Option.map_some',
    own, Nat.add_assoc, callScopeAt_lost_decrement, Nat.add_assoc]

/-- One exit of a thread lost, or one too many, moves the values of the thread's later steps by
one, and only of that thread: the run without the exit returns on the exit's thread what the run
with it returns before the exit, then, after it, every value plus one; on every other thread it
returns the same. -/
theorem returnsOn_lost_decrement (pre post : List (ScopeStep Thread)) (thread : Thread) :
    returnsOn thread (pre ++ post) =
        (returnsOn thread (pre ++ .decrement thread :: post)).take (ownSteps thread pre).length ++
          ((returnsOn thread (pre ++ .decrement thread :: post)).drop
            ((ownSteps thread pre).length + 1)).map (· + 1) ∧
      ∀ other, other ≠ thread →
        returnsOn other (pre ++ post) = returnsOn other (pre ++ .decrement thread :: post) := by
  refine ⟨?lost, fun other different => ?others⟩
  case lost =>
    have shifted := callScopeValues_shift
      (show callScopeAfter initialCallScope (ownSteps thread pre) thread =
          (callScopeStep (callScopeAfter initialCallScope (ownSteps thread pre))
            (.decrement thread)).2 thread + 1 by
        rw [callScopeStep_decrement_self, sub_add_cancel])
      fun step (member : step ∈ ownSteps thread post) => thread_of_mem_ownSteps member
    rw [returnsOn_eq, returnsOn_eq, ownSteps_append, ownSteps_append,
      ownSteps_cons_of_eq (ScopeStep.thread_decrement thread), callScopeReturns, callScopeReturns,
      callScopeValues_append, callScopeValues_append, callScopeValues, shifted,
      ← callScopeValues_length initialCallScope (ownSteps thread pre),
      List.take_left' rfl, List.drop_append, List.drop_one, List.tail_cons]
  case others =>
    rw [returnsOn_eq, returnsOn_eq, ownSteps_append, ownSteps_append,
      ownSteps_cons_of_ne (by simpa using different.symm)]

/-! ### What the stubs' test sees -/

/-- After a lost exit, no later `IncrementCallScope` of its thread returns `1`: none of the
thread's later calls is taken for one the application made, however many of them close. The run
in which the exit ran is taken well nested and within the depth bound. -/
theorem callScopeReturns_ne_one_of_lost_decrement {pre post : List (ScopeStep Thread)}
    {thread : Thread} (nested : WellNested (pre ++ .decrement thread :: post))
    (bounded : DepthBelow (pre ++ .decrement thread :: post)) {position : Nat}
    (later : pre.length ≤ position)
    (entered : (pre ++ post)[position]? = some (.increment thread)) :
    (callScopeReturns (pre ++ post))[position]? ≠ some 1 := by
  have enteredWith : (pre ++ .decrement thread :: post)[position + 1]? = some (.increment thread) :=
    (getElem?_append_cons_of_le later).trans entered
  rw [callScopeReturns_lost_decrement later entered (ScopeStep.thread_increment thread),
    callScopeReturns_getElem? enteredWith, Option.map_some', ScopeStep.thread_increment, ne_eq,
    Option.some.injEq, add_left_eq_self]
  exact callScopeAt_succ_ne_zero_of_increment nested bounded enteredWith

/-- Thread `0` makes a call whose exit is lost; its next call returns `2`, not `1`. -/
theorem callScopeReturns_lostDecrement_nextCall :
    WellNested ([ScopeStep.increment 0] ++ .decrement 0 :: [.increment 0, .decrement 0]) ∧
      DepthBelow ([ScopeStep.increment 0] ++ .decrement 0 :: [.increment 0, .decrement 0]) ∧
      (callScopeReturns ([ScopeStep.increment 0] ++ [.increment 0, .decrement 0]))[1]? ≠ some 1 :=
  ⟨by decide, depthBelow_of_length_lt (by decide),
    @callScopeReturns_ne_one_of_lost_decrement Nat _ [.increment 0] [.increment 0, .decrement 0] 0
      (by decide) (depthBelow_of_length_lt (by decide)) 1 (by decide) (by decide)⟩

/-- After a spurious exit, the later `IncrementCallScope` calls of its thread that return `1` are
those made with exactly one call open: the application's own calls are no longer taken for
such, and the calls made one level down are. The run without the spurious exit is taken well
nested and within the depth bound. -/
theorem callScopeReturns_eq_one_iff_of_spurious_decrement {pre post : List (ScopeStep Thread)}
    {thread : Thread} (nested : WellNested (pre ++ post)) (bounded : DepthBelow (pre ++ post))
    {position : Nat} (later : pre.length ≤ position)
    (entered : (pre ++ post)[position]? = some (.increment thread)) :
    (callScopeReturns (pre ++ .decrement thread :: post))[position + 1]? = some 1 ↔
      openCountAt (pre ++ post) position thread = some 1 := by
  have enteredWith : (pre ++ .decrement thread :: post)[position + 1]? = some (.increment thread) :=
    (getElem?_append_cons_of_le later).trans entered
  have returned := callScopeReturns_lost_decrement later entered (ScopeStep.thread_increment thread)
  rw [callScopeReturns_getElem? entered, callScopeReturns_getElem? enteredWith, Option.map_some',
    Option.some.injEq, ScopeStep.thread_increment] at returned
  have grown := callScopeAt_succ_toNat_of_increment nested bounded entered
  rw [returned] at grown
  rw [callScopeReturns_getElem? enteredWith, openCountAt_eq_callScopeAt nested bounded,
    ScopeStep.thread_increment,
    Option.some.injEq, Option.some.injEq, ← add_left_inj 1]
  generalize callScopeAt (pre ++ .decrement thread :: post) (position + 1 + 1) thread + 1 = value
    at grown ⊢
  constructor
  · intro two
    rw [two] at grown
    exact Nat.succ_inj'.mp grown.symm
  · intro one
    exact UInt32.toNat.inj (by rw [grown, one]; rfl)

/-- Thread `0` makes a call with one nested call, and an exit too many runs before the nested
call: the nested call returns `1`. -/
theorem callScopeReturns_spuriousDecrement_innerCall :
    WellNested ([ScopeStep.increment 0] ++ [.increment 0, .decrement 0, .decrement 0]) ∧
      DepthBelow ([ScopeStep.increment 0] ++ [.increment 0, .decrement 0, .decrement 0]) ∧
      ((callScopeReturns ([ScopeStep.increment 0] ++
          .decrement 0 :: [.increment 0, .decrement 0, .decrement 0]))[1 + 1]? = some 1 ↔
        openCountAt ([ScopeStep.increment 0] ++ [.increment 0, .decrement 0, .decrement 0]) 1 0 =
          some 1) :=
  ⟨by decide, depthBelow_of_length_lt (by decide),
    callScopeReturns_eq_one_iff_of_spurious_decrement (by decide)
      (depthBelow_of_length_lt (by decide)) (by decide) (by decide)⟩

end Gfxrecon.Encode
