import D3D12Capture.CallScope
import Mathlib.Data.List.Infix

/-
This file states what the call scope is for. The intercepted calls of one thread nest: a call an
entry point makes while it runs starts after it and ends before it. The calls open on a thread
therefore form a stack, and the abstract machine here keeps one per thread: an entry pushes the
new call, an exit pops the innermost call open on its thread. A call is named by the position of
its entry in the run.

A run is well nested when no exit finds its thread with no call open, that is, when no prefix
of the run has more exits than entries on a thread (`wellNested_iff_count_le`). A run may stop
with calls still open: it is any prefix of a run of complete calls.
-/

namespace Gfxrecon.Encode

variable {Thread : Type} [DecidableEq Thread]

/-! ### The call stacks -/

/-- One step on the threads' call stacks, at position `position` of the run: an entry opens a
call named by the position on top of its thread's stack; an exit closes the call on top of its
thread's stack, and is stuck when the thread has no call open. -/
def openCallsStep (calls : Thread → List Nat) (position : Nat) :
    ScopeStep Thread → Option (Thread → List Nat)
  | .increment thread => some (Function.update calls thread (position :: calls thread))
  | .decrement thread =>
    match calls thread with
    | [] => none
    | _ :: outer => some (Function.update calls thread outer)

theorem openCallsStep_of_ne {calls next : Thread → List Nat} {position : Nat}
    {step : ScopeStep Thread} (stepped : openCallsStep calls position step = some next)
    {other : Thread} (different : other ≠ step.thread) : next other = calls other := by
  cases step with
  | increment thread =>
    cases stepped
    exact Function.update_noteq different _ _
  | decrement thread =>
    simp only [openCallsStep] at stepped
    split at stepped
    · cases stepped
    · cases stepped
      exact Function.update_noteq different _ _

theorem openCallsStep_increment {calls next : Thread → List Nat} {position : Nat} {thread : Thread}
    (stepped : openCallsStep calls position (.increment thread) = some next) :
    next thread = position :: calls thread := by
  cases stepped
  exact Function.update_same _ _ _

theorem openCallsStep_decrement {calls next : Thread → List Nat} {position : Nat} {thread : Thread}
    (stepped : openCallsStep calls position (.decrement thread) = some next) :
    ∃ top, calls thread = top :: next thread := by
  simp only [openCallsStep] at stepped
  split at stepped
  · cases stepped
  · rename_i top outer popped
    cases stepped
    exact ⟨top, by rw [Function.update_same, popped]⟩

/-- What a step does to one thread's stack: the thread's entry pushes the step's position, the
thread's exit pops the call on top, and a step of another thread leaves the stack as it was. -/
theorem openCallsStep_cases {calls next : Thread → List Nat} {position : Nat}
    {step : ScopeStep Thread} (stepped : openCallsStep calls position step = some next)
    (thread : Thread) :
    (step = .increment thread ∧ next thread = position :: calls thread) ∨
      (step = .decrement thread ∧ ∃ top, calls thread = top :: next thread) ∨
      (thread ≠ step.thread ∧ next thread = calls thread) := by
  by_cases own : thread = step.thread
  · cases step with
    | increment stepper =>
      obtain rfl : thread = stepper := own
      exact .inl ⟨rfl, openCallsStep_increment stepped⟩
    | decrement stepper =>
      obtain rfl : thread = stepper := own
      exact .inr (.inl ⟨rfl, openCallsStep_decrement stepped⟩)
  · exact .inr (.inr ⟨own, openCallsStep_of_ne stepped own⟩)

/-- The call stacks after the steps, the first of them at position `position`; `none` when an
exit is stuck. -/
def openCallsFrom (calls : Thread → List Nat) (position : Nat) :
    List (ScopeStep Thread) → Option (Thread → List Nat)
  | [] => some calls
  | step :: rest =>
    (openCallsStep calls position step).bind fun next => openCallsFrom next (position + 1) rest

theorem openCallsFrom_append (calls : Thread → List Nat) (position : Nat)
    (first second : List (ScopeStep Thread)) :
    openCallsFrom calls position (first ++ second) =
      (openCallsFrom calls position first).bind fun middle =>
        openCallsFrom middle (position + first.length) second := by
  induction first generalizing calls position with
  | nil => rfl
  | cons step rest inductionHypothesis =>
    have shift : position + (rest.length + 1) = position + 1 + rest.length := by omega
    show ((openCallsStep calls position step).bind fun next =>
        openCallsFrom next (position + 1) (rest ++ second)) = _
    simp only [openCallsFrom, Option.bind_assoc, inductionHypothesis, List.length_cons, shift]

/-- A call open after a step, with the calls under it, was open before it on the same calls, or
is the call the step opened, on top of the stack it found. -/
theorem openCallsStep_suffix {calls next : Thread → List Nat} {position : Nat}
    {step : ScopeStep Thread} (stepped : openCallsStep calls position step = some next)
    {thread : Thread} {entry : Nat} {outer : List Nat} (suffix : entry :: outer <:+ next thread) :
    (step = .increment thread ∧ entry = position ∧ outer = calls thread) ∨
      entry :: outer <:+ calls thread := by
  rcases openCallsStep_cases stepped thread with ⟨rfl, pushed⟩ | ⟨-, top, popped⟩ | ⟨-, same⟩
  · rw [pushed, List.suffix_cons_iff] at suffix
    rcases suffix with top | below
    · obtain ⟨rfl, rfl⟩ := List.cons.inj top
      exact .inl ⟨rfl, rfl, rfl⟩
    · exact .inr below
  · exact .inr (popped ▸ suffix.trans (List.suffix_cons top _))
  · exact .inr (same ▸ suffix)

/-- A call open after a step was open before it, or is the call the step opened. -/
theorem openCallsStep_mem {calls next : Thread → List Nat} {position : Nat}
    {step : ScopeStep Thread} (stepped : openCallsStep calls position step = some next)
    {thread : Thread} {entry : Nat} (member : entry ∈ next thread) :
    entry = position ∨ entry ∈ calls thread := by
  obtain ⟨inner, outer, split⟩ := List.append_of_mem member
  rcases openCallsStep_suffix stepped (split ▸ List.suffix_append inner _) with
    ⟨-, pushed, -⟩ | below
  · exact .inl pushed
  · exact .inr (below.subset (List.mem_cons_self _ _))

/-- A step adds one call to its thread's stack on an entry and takes one off on an exit. -/
theorem openCallsStep_length {calls next : Thread → List Nat} {position : Nat}
    {step : ScopeStep Thread} (stepped : openCallsStep calls position step = some next)
    (thread : Thread) :
    (next thread).length + (if step = .decrement thread then 1 else 0) =
      (calls thread).length + if step = .increment thread then 1 else 0 := by
  rcases openCallsStep_cases stepped thread with
    ⟨rfl, pushed⟩ | ⟨rfl, top, popped⟩ | ⟨other, same⟩
  · simp [pushed]
  · simp [popped]
  · rw [same, if_neg (ScopeStep.ne_of_thread_ne other).1,
      if_neg (ScopeStep.ne_of_thread_ne other).2]

/-- A thread's open calls are those it had, plus its entries, minus its exits. -/
theorem openCallsFrom_length {calls final : Thread → List Nat} {position : Nat}
    {run : List (ScopeStep Thread)} (ran : openCallsFrom calls position run = some final)
    (thread : Thread) :
    (final thread).length + run.count (.decrement thread) =
      (calls thread).length + run.count (.increment thread) := by
  induction run generalizing calls position with
  | nil =>
    cases ran
    rfl
  | cons step rest inductionHypothesis =>
    obtain ⟨next, stepped, later⟩ := Option.bind_eq_some.mp ran
    have counted := openCallsStep_length stepped thread
    have rested := inductionHypothesis later
    rw [List.count_cons, List.count_cons]
    simp only [beq_iff_eq] at counted ⊢
    omega

/-- A call leaves its thread's stack only when the thread's exit pops it from the top. -/
theorem openCallsStep_removed {calls next : Thread → List Nat} {position : Nat}
    {step : ScopeStep Thread} (stepped : openCallsStep calls position step = some next)
    {thread : Thread} {entry : Nat} (before : entry ∈ calls thread) (after : entry ∉ next thread) :
    step = .decrement thread ∧ ∃ outer, calls thread = entry :: outer := by
  rcases openCallsStep_cases stepped thread with
    ⟨-, pushed⟩ | ⟨exited, top, popped⟩ | ⟨-, same⟩
  · exact absurd (pushed ▸ List.mem_cons_of_mem _ before) after
  · rw [popped] at before
    rcases List.mem_cons.mp before with rfl | below
    · exact ⟨exited, _, popped⟩
    · exact absurd below after
  · exact absurd (same ▸ before) after

/-- The calls open on every thread after the first `steps` steps of a run. -/
def openCallsAt (run : List (ScopeStep Thread)) (steps : Nat) : Option (Thread → List Nat) :=
  openCallsFrom (fun _ => []) 0 (run.take steps)

theorem openCallsAt_zero (run : List (ScopeStep Thread)) :
    openCallsAt run 0 = some fun _ => [] := by
  simp [openCallsAt, openCallsFrom]

theorem openCallsAt_succ {run : List (ScopeStep Thread)} {position : Nat}
    {step : ScopeStep Thread} (found : run[position]? = some step) :
    openCallsAt run (position + 1) =
      (openCallsAt run position).bind fun calls => openCallsStep calls position step := by
  have inRun : position < run.length := (List.getElem?_eq_some_iff.mp found).1
  rw [openCallsAt, List.take_succ, found, openCallsFrom_append, List.length_take_of_le inRun.le]
  simp only [Nat.zero_add, Option.toList_some, openCallsFrom, Option.bind_some]
  rfl

theorem openCallsAt_succ_of_none {run : List (ScopeStep Thread)} {steps : Nat}
    (past : run[steps]? = none) : openCallsAt run (steps + 1) = openCallsAt run steps := by
  rw [openCallsAt, List.take_succ, past, Option.toList_none, List.append_nil, openCallsAt]

/-- The stacks after one more step: the run has ended and they are those before, or they are
one step of the stacks before. -/
theorem openCallsAt_succ_cases {run : List (ScopeStep Thread)} {steps : Nat}
    {calls : Thread → List Nat} (ran : openCallsAt run (steps + 1) = some calls) :
    (run[steps]? = none ∧ openCallsAt run steps = some calls) ∨
      ∃ step before, run[steps]? = some step ∧ openCallsAt run steps = some before ∧
        openCallsStep before steps step = some calls := by
  cases found : run[steps]? with
  | none => exact .inl ⟨rfl, by rwa [openCallsAt_succ_of_none found] at ran⟩
  | some step =>
    rw [openCallsAt_succ found] at ran
    obtain ⟨before, earlier, stepped⟩ := Option.bind_eq_some.mp ran
    exact .inr ⟨step, before, rfl, earlier, stepped⟩

/-- The stacks of a shorter prefix exist when those of a longer one do. -/
theorem openCallsAt_of_le {run : List (ScopeStep Thread)} {steps later : Nat}
    {calls : Thread → List Nat} (ran : openCallsAt run later = some calls) (before : steps ≤ later) :
    ∃ earlier, openCallsAt run steps = some earlier := by
  induction later, before using Nat.le_induction generalizing calls with
  | base => exact ⟨calls, ran⟩
  | succ later _ inductionHypothesis =>
    rcases openCallsAt_succ_cases ran with ⟨-, earlier⟩ | ⟨_, _, -, earlier, -⟩ <;>
      exact inductionHypothesis earlier

/-! ### Well-nested runs -/

/-- Every exit closes a call open on its own thread. A run may stop with calls still open. -/
def WellNested (run : List (ScopeStep Thread)) : Prop :=
  (openCallsFrom (fun _ => []) 0 run).isSome = true

instance (run : List (ScopeStep Thread)) : Decidable (WellNested run) :=
  inferInstanceAs (Decidable (_ = true))

/-- A prefix of a well-nested run is well nested. -/
theorem WellNested.exists_openCallsAt {run : List (ScopeStep Thread)} (nested : WellNested run)
    (steps : Nat) : ∃ calls, openCallsAt run steps = some calls := by
  rw [WellNested, ← List.take_append_drop steps run, openCallsFrom_append] at nested
  cases taken : openCallsAt run steps with
  | none => rw [openCallsAt] at taken; rw [taken] at nested; cases nested
  | some calls => exact ⟨calls, rfl⟩

/-- A run is well nested exactly when no prefix of it has more exits than entries on a thread. -/
theorem wellNested_iff_count_le (run : List (ScopeStep Thread)) :
    WellNested run ↔ ∀ steps thread,
      (run.take steps).count (.decrement thread) ≤ (run.take steps).count (.increment thread) := by
  constructor
  · intro nested steps thread
    obtain ⟨calls, ran⟩ := nested.exists_openCallsAt steps
    have counted := openCallsFrom_length ran thread
    simp only [List.length_nil, Nat.zero_add] at counted
    omega
  · intro balanced
    have prefixes : ∀ steps, ∃ calls, openCallsAt run steps = some calls := by
      intro steps
      induction steps with
      | zero => exact ⟨_, openCallsAt_zero run⟩
      | succ steps inductionHypothesis =>
        obtain ⟨calls, ran⟩ := inductionHypothesis
        cases found : run[steps]? with
        | none => exact ⟨calls, by rw [openCallsAt_succ_of_none found, ran]⟩
        | some step =>
          rw [openCallsAt_succ found, ran, Option.some_bind]
          cases step with
          | increment thread => exact ⟨_, rfl⟩
          | decrement thread =>
            have counted := openCallsFrom_length ran thread
            have bounded := balanced (steps + 1) thread
            simp only [List.take_succ, found, Option.toList_some, List.count_append,
              List.count_cons, List.count_nil, beq_iff_eq, reduceCtorEq, if_true,
              if_false] at bounded
            simp only [List.length_nil, Nat.zero_add] at counted
            obtain ⟨top, outer, opened⟩ :=
              List.exists_cons_of_length_pos (show 0 < (calls thread).length by omega)
            exact ⟨_, by simp only [openCallsStep, opened]; rfl⟩
    obtain ⟨calls, ran⟩ := prefixes run.length
    rw [openCallsAt, List.take_length] at ran
    rw [WellNested, ran]
    rfl

/-- No thread ever has `UInt32.size = 2 ^ 32` calls open at once. -/
def DepthBelow (run : List (ScopeStep Thread)) : Prop :=
  ∀ steps calls thread, openCallsAt run steps = some calls → (calls thread).length < UInt32.size

/-- A run of fewer than `2 ^ 32` steps never reaches that depth. -/
theorem depthBelow_of_length_lt {run : List (ScopeStep Thread)} (short : run.length < UInt32.size) :
    DepthBelow run := by
  intro steps calls thread ran
  have counted := openCallsFrom_length ran thread
  have entries := List.count_le_length (ScopeStep.increment thread) (run.take steps)
  have taken : (run.take steps).length ≤ run.length := List.length_take_le' _ _
  simp only [List.length_nil, Nat.zero_add] at counted
  omega

/-- How many calls `thread` has open after the first `steps` steps of a run. -/
def openCountAt (run : List (ScopeStep Thread)) (steps : Nat) (thread : Thread) : Option Nat :=
  (openCallsAt run steps).map fun calls => (calls thread).length

/-- On a well-nested run, a thread's open calls are its entries minus its exits. -/
theorem WellNested.openCountAt_eq {run : List (ScopeStep Thread)} (nested : WellNested run)
    (steps : Nat) (thread : Thread) :
    openCountAt run steps thread =
      some ((run.take steps).count (.increment thread) -
        (run.take steps).count (.decrement thread)) := by
  obtain ⟨calls, ran⟩ := nested.exists_openCallsAt steps
  have counted := openCallsFrom_length ran thread
  simp only [List.length_nil, Nat.zero_add] at counted
  rw [openCountAt, ran, Option.map_some', Option.some.injEq]
  omega

/-- An entry adds one call to its thread's count. -/
theorem openCountAt_succ_increment {run : List (ScopeStep Thread)} {position : Nat}
    {thread : Thread} (found : run[position]? = some (.increment thread)) :
    openCountAt run (position + 1) thread = (openCountAt run position thread).map (· + 1) := by
  simp only [openCountAt, openCallsAt_succ found]
  cases openCallsAt run position <;> simp [openCallsStep]

/-- In a well-nested run, an exit finds at least one call open on its thread. -/
theorem WellNested.openCountAt_decrement {run : List (ScopeStep Thread)} (nested : WellNested run)
    {position : Nat} {thread : Thread} (found : run[position]? = some (.decrement thread)) :
    ∃ depth, openCountAt run position thread = some (depth + 1) := by
  obtain ⟨calls, ran⟩ := nested.exists_openCallsAt (position + 1)
  rw [openCallsAt_succ found] at ran
  obtain ⟨before, earlier, stepped⟩ := Option.bind_eq_some.mp ran
  obtain ⟨top, popped⟩ := openCallsStep_decrement stepped
  exact ⟨(calls thread).length, by simp [openCountAt, earlier, popped]⟩

end Gfxrecon.Encode
