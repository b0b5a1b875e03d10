import Mathlib.Logic.Function.Basic

/-
This file models the call scope of `D3D12CaptureManager` (`encode/d3d12_capture_manager.h`).
The stub of every intercepted entry point runs `IncrementCallScope` when the call starts and
`DecrementCallScope` when it ends. Both are a prefix `++` or `--` on `call_scope_`, a
`static thread_local uint32_t`, and return the updated value: each thread counts on a copy of
its own, which starts at zero.

A run is one interleaving of the threads' steps: a list of steps, each tagged with the thread
that runs it. A step reads and writes only its own thread's copy, so no other thread can come
between the load and the store of `++` or `--` with an effect on it, and a step is one
transition. The arithmetic is `UInt32`, so that a wrap at either end stays visible.

The file proves what the rest of the development builds on: a step changes no other thread's
counter; whatever the run, a thread's counter is its entries minus its exits modulo `2 ^ 32`;
and the values a thread's steps return are the values they return when the thread runs alone.
-/

namespace Gfxrecon.Encode

variable {Thread : Type}

/-! ### The two methods -/

/-- What an intercepted call does to the call scope: its stub runs `IncrementCallScope` on entry
and `DecrementCallScope` on exit, on the thread that made the call. -/
inductive ScopeStep (Thread : Type) where
  | increment (thread : Thread)
  | decrement (thread : Thread)
  deriving DecidableEq, Repr

/-- The thread that runs the step. -/
def ScopeStep.thread : ScopeStep Thread → Thread
  | .increment thread => thread
  | .decrement thread => thread

@[simp] theorem ScopeStep.thread_increment (thread : Thread) :
    (ScopeStep.increment thread).thread = thread := rfl

@[simp] theorem ScopeStep.thread_decrement (thread : Thread) :
    (ScopeStep.decrement thread).thread = thread := rfl

theorem ScopeStep.ne_of_thread_ne {step : ScopeStep Thread} {thread : Thread}
    (other : thread ≠ step.thread) : step ≠ .increment thread ∧ step ≠ .decrement thread :=
  ⟨by rintro rfl; exact other rfl, by rintro rfl; exact other rfl⟩

variable [DecidableEq Thread]

/-- Every thread's `call_scope_` when it starts: storage of thread duration is zero-initialized. -/
def initialCallScope : Thread → UInt32 := fun _ => 0

/-- A prefix `++` or `--` on the calling thread's copy of `call_scope_`: the updated value is
stored, and returned. -/
def updateCallScope (update : UInt32 → UInt32) (callScope : Thread → UInt32) (thread : Thread) :
    UInt32 × (Thread → UInt32) :=
  (update (callScope thread), Function.update callScope thread (update (callScope thread)))

/-- `IncrementCallScope`: `return ++call_scope_;`. -/
def incrementCallScope (callScope : Thread → UInt32) (thread : Thread) :
    UInt32 × (Thread → UInt32) :=
  updateCallScope (fun scope => scope + 1) callScope thread

/-- `DecrementCallScope`: `return --call_scope_;`. -/
def decrementCallScope (callScope : Thread → UInt32) (thread : Thread) :
    UInt32 × (Thread → UInt32) :=
  updateCallScope (fun scope => scope - 1) callScope thread

theorem updateCallScope_fst (update : UInt32 → UInt32) (callScope : Thread → UInt32)
    (thread : Thread) :
    (updateCallScope update callScope thread).1 = (updateCallScope update callScope thread).2 thread := by
  simp [updateCallScope]

theorem updateCallScope_snd_of_ne (update : UInt32 → UInt32) (callScope : Thread → UInt32)
    {thread other : Thread} (different : other ≠ thread) :
    (updateCallScope update callScope thread).2 other = callScope other :=
  Function.update_noteq different _ _

/-! ### `UInt32` arithmetic -/

theorem toNat_add_one (scope : UInt32) : (scope + 1).toNat = (scope.toNat + 1) % UInt32.size := by
  show (scope.toBitVec + 1#32).toNat = _
  rw [BitVec.toNat_add, BitVec.toNat_ofNat]
  rfl

theorem toNat_sub_one (scope : UInt32) :
    (scope - 1).toNat = (scope.toNat + (UInt32.size - 1)) % UInt32.size := by
  show (scope.toBitVec - 1#32).toNat = _
  rw [BitVec.toNat_sub, BitVec.toNat_ofNat, Nat.add_comm]
  rfl

theorem toNat_add_one_of_lt {scope : UInt32} (room : scope.toNat + 1 < UInt32.size) :
    (scope + 1).toNat = scope.toNat + 1 := by
  rw [toNat_add_one, Nat.mod_eq_of_lt room]

theorem toNat_sub_one_of_ne_zero {scope : UInt32} (nonzero : scope ≠ 0) :
    (scope - 1).toNat = scope.toNat - 1 := by
  have positive : scope.toNat ≠ 0 := fun zero => nonzero (UInt32.toNat.inj zero)
  have below : scope.toNat < UInt32.size := scope.toBitVec.isLt
  rw [toNat_sub_one]
  simp only [UInt32.size] at below ⊢
  omega

/-! ### One step -/

/-- One step of a run: the value the method returns, and every thread's counter after it. -/
def callScopeStep (callScope : Thread → UInt32) : ScopeStep Thread → UInt32 × (Thread → UInt32)
  | .increment thread => incrementCallScope callScope thread
  | .decrement thread => decrementCallScope callScope thread

@[simp] theorem callScopeStep_increment_self (callScope : Thread → UInt32) (thread : Thread) :
    (callScopeStep callScope (.increment thread)).2 thread = callScope thread + 1 := by
  simp [callScopeStep, incrementCallScope, updateCallScope]

@[simp] theorem callScopeStep_decrement_self (callScope : Thread → UInt32) (thread : Thread) :
    (callScopeStep callScope (.decrement thread)).2 thread = callScope thread - 1 := by
  simp [callScopeStep, decrementCallScope, updateCallScope]

/-- The value a step returns is its thread's counter after it. -/
theorem callScopeStep_fst (callScope : Thread → UInt32) (step : ScopeStep Thread) :
    (callScopeStep callScope step).1 = (callScopeStep callScope step).2 step.thread := by
  cases step <;> exact updateCallScope_fst _ _ _

/-- A step leaves every other thread's counter as it was: `call_scope_` is thread-local. -/
theorem callScopeStep_of_ne (callScope : Thread → UInt32) (step : ScopeStep Thread)
    {other : Thread} (different : other ≠ step.thread) :
    (callScopeStep callScope step).2 other = callScope other := by
  cases step with
  | increment thread => exact updateCallScope_snd_of_ne (fun scope => scope + 1) callScope different
  | decrement thread => exact updateCallScope_snd_of_ne (fun scope => scope - 1) callScope different

/-- What a step does on its own thread depends on that thread's counter only. -/
theorem callScopeStep_congr {callScope solo : Thread → UInt32} (step : ScopeStep Thread)
    (same : callScope step.thread = solo step.thread) :
    (callScopeStep callScope step).2 step.thread = (callScopeStep solo step).2 step.thread := by
  cases step <;> simp_all

/-- What a step does to one thread's counter: the thread's entry adds one, the thread's exit
takes one off, and a step of another thread leaves it as it was. -/
theorem callScopeStep_cases (callScope : Thread → UInt32) (step : ScopeStep Thread)
    (thread : Thread) :
    (step = .increment thread ∧ (callScopeStep callScope step).2 thread = callScope thread + 1) ∨
      (step = .decrement thread ∧
        (callScopeStep callScope step).2 thread = callScope thread - 1) ∨
      (thread ≠ step.thread ∧ (callScopeStep callScope step).2 thread = callScope thread) := by
  by_cases own : thread = step.thread
  · cases step with
    | increment stepper =>
      obtain rfl : thread = stepper := own
      exact .inl ⟨rfl, callScopeStep_increment_self _ _⟩
    | decrement stepper =>
      obtain rfl : thread = stepper := own
      exact .inr (.inl ⟨rfl, callScopeStep_decrement_self _ _⟩)
  · exact .inr (.inr ⟨own, callScopeStep_of_ne _ _ own⟩)

/-- A step moves its own thread's counter by one, modulo `2 ^ 32`, and no other counter. -/
theorem callScopeStep_toNat_mod (callScope : Thread → UInt32) (step : ScopeStep Thread)
    (thread : Thread) :
    (((callScopeStep callScope step).2 thread).toNat +
        if step = .decrement thread then 1 else 0) % UInt32.size =
      ((callScope thread).toNat + if step = .increment thread then 1 else 0) % UInt32.size := by
  rcases callScopeStep_cases callScope step thread with
    ⟨rfl, stepped⟩ | ⟨rfl, stepped⟩ | ⟨other, stepped⟩
  · simp only [stepped, toNat_add_one, if_true, reduceCtorEq, if_false, UInt32.size]
    omega
  · simp only [stepped, toNat_sub_one, if_true, reduceCtorEq, if_false, UInt32.size]
    omega
  · rw [stepped, if_neg (ScopeStep.ne_of_thread_ne other).1,
      if_neg (ScopeStep.ne_of_thread_ne other).2]

/-! ### Runs -/

/-- Every thread's counter after the steps, run in order. -/
def callScopeAfter (callScope : Thread → UInt32) : List (ScopeStep Thread) → Thread → UInt32
  | [] => callScope
  | step :: rest => callScopeAfter (callScopeStep callScope step).2 rest

/-- The values the steps return, run in order. -/
def callScopeValues (callScope : Thread → UInt32) : List (ScopeStep Thread) → List UInt32
  | [] => []
  | step :: rest =>
    (callScopeStep callScope step).1 :: callScopeValues (callScopeStep callScope step).2 rest

theorem callScopeAfter_append (callScope : Thread → UInt32) (first second : List (ScopeStep Thread)) :
    callScopeAfter callScope (first ++ second) =
      callScopeAfter (callScopeAfter callScope first) second := by
  induction first generalizing callScope with
  | nil => rfl
  | cons step rest inductionHypothesis => exact inductionHypothesis _

theorem callScopeValues_append (callScope : Thread → UInt32)
    (first second : List (ScopeStep Thread)) :
    callScopeValues callScope (first ++ second) =
      callScopeValues callScope first ++ callScopeValues (callScopeAfter callScope first) second := by
  induction first generalizing callScope with
  | nil => rfl
  | cons step rest inductionHypothesis => exact congrArg _ (inductionHypothesis _)

@[simp] theorem callScopeValues_length (callScope : Thread → UInt32)
    (run : List (ScopeStep Thread)) : (callScopeValues callScope run).length = run.length := by
  induction run generalizing callScope with
  | nil => rfl
  | cons step rest inductionHypothesis => exact congrArg Nat.succ (inductionHypothesis _)

theorem callScopeValues_getElem? (callScope : Thread → UInt32) (run : List (ScopeStep Thread))
    (position : Nat) :
    (callScopeValues callScope run)[position]? =
      run[position]?.map fun step =>
        (callScopeStep (callScopeAfter callScope (run.take position)) step).1 := by
  induction run generalizing callScope position with
  | nil => rfl
  | cons step rest inductionHypothesis =>
    cases position with
    | zero => simp [callScopeValues, callScopeAfter]
    | succ position =>
      simp only [callScopeValues, List.getElem?_cons_succ, List.take_succ_cons, callScopeAfter]
      exact inductionHypothesis _ position

/-- The values a run's steps return, from threads that start at zero. -/
def callScopeReturns (run : List (ScopeStep Thread)) : List UInt32 :=
  callScopeValues initialCallScope run

/-- Every thread's counter after the first `steps` steps of a run. -/
def callScopeAt (run : List (ScopeStep Thread)) (steps : Nat) : Thread → UInt32 :=
  callScopeAfter initialCallScope (run.take steps)

theorem callScopeAt_succ {run : List (ScopeStep Thread)} {position : Nat} {step : ScopeStep Thread}
    (found : run[position]? = some step) :
    callScopeAt run (position + 1) = (callScopeStep (callScopeAt run position) step).2 := by
  rw [callScopeAt, List.take_succ, found, callScopeAfter_append]
  rfl

theorem callScopeAt_succ_of_none {run : List (ScopeStep Thread)} {steps : Nat}
    (past : run[steps]? = none) : callScopeAt run (steps + 1) = callScopeAt run steps := by
  rw [callScopeAt, List.take_succ, past, Option.toList_none, List.append_nil, callScopeAt]

/-- The value the step at `position` returns is its thread's counter after it. -/
theorem callScopeReturns_getElem? {run : List (ScopeStep Thread)} {position : Nat}
    {step : ScopeStep Thread} (found : run[position]? = some step) :
    (callScopeReturns run)[position]? = some (callScopeAt run (position + 1) step.thread) := by
  rw [callScopeReturns, callScopeValues_getElem?, found, callScopeAt_succ found, Option.map_some',
    callScopeStep_fst]
  rfl

/-- Whatever the run, nested or not, a thread's counter plus its exits is its starting counter
plus its entries, modulo `2 ^ 32`: an exit on a zero counter wraps it to `2 ^ 32 - 1`. -/
theorem callScopeAfter_toNat_mod (callScope : Thread → UInt32) (run : List (ScopeStep Thread))
    (thread : Thread) :
    ((callScopeAfter callScope run thread).toNat + run.count (.decrement thread)) % UInt32.size =
      ((callScope thread).toNat + run.count (.increment thread)) % UInt32.size := by
  induction run generalizing callScope with
  | nil => rfl
  | cons step rest inductionHypothesis =>
    have stepped := callScopeStep_toNat_mod callScope step thread
    have later := inductionHypothesis (callScopeStep callScope step).2
    rw [callScopeAfter, List.count_cons, List.count_cons]
    simp only [beq_iff_eq, UInt32.size] at stepped later ⊢
    split_ifs at stepped ⊢ <;> omega

/-- Whatever the run, nested or not, after every prefix a thread's counter plus its exits is its
entries, modulo `2 ^ 32`. -/
theorem callScopeAt_toNat_mod (run : List (ScopeStep Thread)) (steps : Nat) (thread : Thread) :
    ((callScopeAt run steps thread).toNat + (run.take steps).count (.decrement thread)) %
        UInt32.size =
      (run.take steps).count (.increment thread) % UInt32.size := by
  rw [callScopeAt, callScopeAfter_toNat_mod, initialCallScope, UInt32.toNat_zero, Nat.zero_add]

example : callScopeReturns [ScopeStep.decrement 0] = [4294967295] := by decide

/-! ### What the other threads do -/

/-- The steps a thread runs, in order: the run with every other thread's steps taken out. -/
def ownSteps (thread : Thread) (run : List (ScopeStep Thread)) : List (ScopeStep Thread) :=
  run.filter fun step => step.thread = thread

@[simp] theorem ownSteps_append (thread : Thread) (first second : List (ScopeStep Thread)) :
    ownSteps thread (first ++ second) = ownSteps thread first ++ ownSteps thread second :=
  List.filter_append _ _

theorem ownSteps_cons_of_eq {thread : Thread} {step : ScopeStep Thread}
    (own : step.thread = thread) (rest : List (ScopeStep Thread)) :
    ownSteps thread (step :: rest) = step :: ownSteps thread rest :=
  List.filter_cons_of_pos (decide_eq_true own)

theorem ownSteps_cons_of_ne {thread : Thread} {step : ScopeStep Thread}
    (other : step.thread ≠ thread) (rest : List (ScopeStep Thread)) :
    ownSteps thread (step :: rest) = ownSteps thread rest :=
  List.filter_cons_of_neg (by simpa using other)

theorem thread_of_mem_ownSteps {thread : Thread} {run : List (ScopeStep Thread)}
    {step : ScopeStep Thread} (member : step ∈ ownSteps thread run) : step.thread = thread :=
  of_decide_eq_true (List.mem_filter.mp member).2

/-- The values a thread's steps return in a run, in order. -/
def returnsOn (thread : Thread) (run : List (ScopeStep Thread)) : List UInt32 :=
  ((run.zip (callScopeReturns run)).filter fun pair => pair.1.thread = thread).map Prod.snd

/-- A thread's steps return, wherever the other threads' steps fall between them, what they
return when the thread runs alone from the same counter. -/
theorem callScopeValues_filter (thread : Thread) (run : List (ScopeStep Thread))
    {callScope solo : Thread → UInt32} (same : callScope thread = solo thread) :
    ((run.zip (callScopeValues callScope run)).filter fun pair => pair.1.thread = thread).map
        Prod.snd =
      callScopeValues solo (ownSteps thread run) := by
  induction run generalizing callScope solo with
  | nil => rfl
  | cons step rest inductionHypothesis =>
    by_cases own : step.thread = thread
    · subst own
      have stepped := callScopeStep_congr step same
      simp only [callScopeValues, List.zip_cons_cons, List.filter_cons, ownSteps,
        decide_True, if_true, List.map_cons, callScopeStep_fst, stepped]
      exact congrArg _ (inductionHypothesis stepped)
    · simp only [callScopeValues, List.zip_cons_cons, List.filter_cons, ownSteps, own,
        decide_False]
      exact inductionHypothesis ((callScopeStep_of_ne callScope step (Ne.symm own)).trans same)

/-- The values a thread's steps return are those of the thread run alone. -/
theorem returnsOn_eq (thread : Thread) (run : List (ScopeStep Thread)) :
    returnsOn thread run = callScopeReturns (ownSteps thread run) :=
  callScopeValues_filter thread run rfl

end Gfxrecon.Encode
