import D3D12Capture.OpenCalls

/-
This file identifies the exit that closes a call. Exits carry no call: `DecrementCallScope`
only counts down. In a well-nested run the exit closes the innermost call open on its thread,
the one on top of the thread's stack, and this is taken as the definition (`Closes`).

The invariant `EnteredOnTop` says that every open call was entered on its own thread, on top of
exactly the calls still open under it. It is what ties the stack a call leaves behind to the
stack it found. From it follows that entries and exits pair up as brackets do: every exit of a
well-nested run closes one call, no call is closed twice, and a call entered while another is
open on its thread is closed before that one is.
-/

namespace Gfxrecon.Encode

variable {Thread : Type} [DecidableEq Thread]

/-! ### The exit that closes a call -/

/-- The exit at position `exit` closes the call entered at position `entry` on `thread`: it is
an exit of that thread, and that call is the innermost one the thread has open when it runs. -/
def Closes (run : List (ScopeStep Thread)) (thread : Thread) (entry exit : Nat) : Prop :=
  run[exit]? = some (.decrement thread) ∧
    ∃ calls outer, openCallsAt run exit = some calls ∧ calls thread = entry :: outer

/-! ### Every open call sits on the stack it found -/

/-- Every call open after the first `steps` steps was entered before them, on its own thread, on
top of exactly the calls still open under it. -/
def EnteredOnTop (run : List (ScopeStep Thread)) (steps : Nat) (calls : Thread → List Nat) :
    Prop :=
  ∀ thread entry outer, entry :: outer <:+ calls thread →
    entry < steps ∧ run[entry]? = some (.increment thread) ∧
      (openCallsAt run entry).map (fun before => before thread) = some outer

theorem EnteredOnTop.succ {run : List (ScopeStep Thread)} {steps : Nat}
    {calls : Thread → List Nat} (invariant : EnteredOnTop run steps calls) :
    EnteredOnTop run (steps + 1) calls := fun thread entry outer suffix =>
  let ⟨earlier, entered, found⟩ := invariant thread entry outer suffix
  ⟨Nat.lt_succ_of_lt earlier, entered, found⟩

/-- One step keeps the invariant: the call it opens is entered on top of the stack it finds. -/
theorem EnteredOnTop.step {run : List (ScopeStep Thread)} {steps : Nat}
    {before calls : Thread → List Nat} (invariant : EnteredOnTop run steps before)
    {step : ScopeStep Thread} (found : run[steps]? = some step)
    (earlier : openCallsAt run steps = some before)
    (stepped : openCallsStep before steps step = some calls) :
    EnteredOnTop run (steps + 1) calls := by
  intro thread entry outer suffix
  rcases openCallsStep_suffix stepped suffix with ⟨rfl, rfl, rfl⟩ | below
  · exact ⟨Nat.lt_succ_self _, found, by rw [earlier]; rfl⟩
  · exact invariant.succ thread entry outer below

theorem enteredOnTop_openCallsAt {run : List (ScopeStep Thread)} {steps : Nat}
    {calls : Thread → List Nat} (ran : openCallsAt run steps = some calls) :
    EnteredOnTop run steps calls := by
  induction steps generalizing calls with
  | zero =>
    rw [openCallsAt_zero, Option.some.injEq] at ran
    subst ran
    intro thread entry outer suffix
    exact absurd (List.eq_nil_of_suffix_nil suffix) (List.cons_ne_nil _ _)
  | succ steps inductionHypothesis =>
    rcases openCallsAt_succ_cases ran with ⟨-, earlier⟩ | ⟨step, before, found, earlier, stepped⟩
    · exact (inductionHypothesis earlier).succ
    · exact (inductionHypothesis earlier).step found earlier stepped

/-- Every call on a part of a thread's stack, deeper calls included, sits on the calls under it
in that part, and those are the calls the thread had open when it was entered. -/
theorem EnteredOnTop.frame_of_mem {run : List (ScopeStep Thread)} {steps : Nat}
    {calls : Thread → List Nat} (invariant : EnteredOnTop run steps calls) {thread : Thread}
    {part : List Nat} (suffix : part <:+ calls thread) {entry : Nat} (member : entry ∈ part) :
    ∃ below, entry :: below <:+ part ∧
      (openCallsAt run entry).map (fun before => before thread) = some below := by
  obtain ⟨above, below, split⟩ := List.append_of_mem member
  have onPart : entry :: below <:+ part := split ▸ List.suffix_append above _
  exact ⟨below, onPart, (invariant thread entry below (onPart.trans suffix)).2.2⟩

/-- The call an exit closes was entered earlier on the same thread; the thread had `depth` calls
open when it was entered, `depth + 1` once it was, and has `depth` again once the exit has run. -/
theorem Closes.openCounts {run : List (ScopeStep Thread)} {thread : Thread} {entry exit : Nat}
    (closing : Closes run thread entry exit) :
    entry < exit ∧ run[entry]? = some (.increment thread) ∧
      ∃ depth, openCountAt run entry thread = some depth ∧
        openCountAt run (entry + 1) thread = some (depth + 1) ∧
        openCountAt run (exit + 1) thread = some depth := by
  obtain ⟨exited, calls, outer, atExit, top⟩ := closing
  obtain ⟨earlier, entered, frame⟩ :=
    enteredOnTop_openCallsAt atExit thread entry outer (top ▸ List.suffix_refl _)
  obtain ⟨before, atEntry, rfl⟩ := Option.map_eq_some'.mp frame
  refine ⟨earlier, entered, (before thread).length, by rw [openCountAt, atEntry]; rfl, ?_, ?_⟩
  · simp [openCountAt, openCallsAt_succ entered, atEntry, openCallsStep]
  · simp [openCountAt, openCallsAt_succ exited, atExit, openCallsStep, top]

/-! ### One exit for each call -/

/-- In a well-nested run every exit closes a call of its thread. -/
theorem WellNested.closes_of_decrement {run : List (ScopeStep Thread)} (nested : WellNested run)
    {exit : Nat} {thread : Thread} (found : run[exit]? = some (.decrement thread)) :
    ∃ entry, Closes run thread entry exit := by
  obtain ⟨calls, ran⟩ := nested.exists_openCallsAt (exit + 1)
  rw [openCallsAt_succ found] at ran
  obtain ⟨before, earlier, stepped⟩ := Option.bind_eq_some.mp ran
  obtain ⟨top, popped⟩ := openCallsStep_decrement stepped
  exact ⟨top, found, before, calls thread, earlier, popped⟩

/-- An open call is on its thread's stack once. -/
theorem not_mem_of_openCallsAt {run : List (ScopeStep Thread)} {steps : Nat}
    {calls : Thread → List Nat} (ran : openCallsAt run steps = some calls) {thread : Thread}
    {entry : Nat} {outer : List Nat} (top : calls thread = entry :: outer) : entry ∉ outer := by
  intro member
  have invariant := enteredOnTop_openCallsAt ran
  obtain ⟨deeper, suffix, foundDeeper⟩ :=
    invariant.frame_of_mem (top ▸ List.suffix_cons entry outer) member
  have found := (invariant thread entry outer (top ▸ List.suffix_refl _)).2.2
  rw [found, Option.some.injEq] at foundDeeper
  have lengths := suffix.length_le
  rw [← foundDeeper, List.length_cons] at lengths
  omega

/-- A call off its thread's stack stays off: every later entry is named by a later position. -/
theorem not_mem_openCallsAt_of_le {run : List (ScopeStep Thread)} {thread : Thread} {entry : Nat}
    {steps : Nat} {calls : Thread → List Nat} (ran : openCallsAt run steps = some calls)
    (absent : entry ∉ calls thread) (earlier : entry < steps) {later : Nat} (after : steps ≤ later)
    {final : Thread → List Nat} (ranLater : openCallsAt run later = some final) :
    entry ∉ final thread := by
  induction later, after using Nat.le_induction generalizing final with
  | base => rwa [ran, Option.some.injEq, ← ranLater] at *
  | succ later after inductionHypothesis =>
    rcases openCallsAt_succ_cases ranLater with ⟨-, earlierRan⟩ | ⟨step, before, -, earlierRan, stepped⟩
    · exact inductionHypothesis earlierRan
    · intro member
      rcases openCallsStep_mem stepped member with pushed | kept
      · omega
      · exact inductionHypothesis earlierRan kept

/-- Once an exit has closed a call, no later exit closes it. -/
theorem Closes.not_closes_of_lt {run : List (ScopeStep Thread)} {thread : Thread}
    {entry exit : Nat} (closing : Closes run thread entry exit) {other : Nat} (later : exit < other) :
    ¬ Closes run thread entry other := by
  rintro ⟨-, final, deeper, ranOther, topOther⟩
  obtain ⟨earlier, -⟩ := closing.openCounts
  obtain ⟨exited, calls, outer, ran, top⟩ := closing
  have popped : openCallsAt run (exit + 1) = some (Function.update calls thread outer) := by
    simp [openCallsAt_succ exited, ran, openCallsStep, top]
  refine not_mem_openCallsAt_of_le popped ?_ (by omega) later ranOther
    (topOther ▸ List.mem_cons_self _ _)
  rw [Function.update_same]
  exact not_mem_of_openCallsAt ran top

/-- A call is closed by one exit at most, and an exit closes one call. -/
theorem Closes.unique {run : List (ScopeStep Thread)} {thread : Thread} {entry exit : Nat}
    (closing : Closes run thread entry exit) :
    (∀ other, Closes run thread entry other → other = exit) ∧
      ∀ other, Closes run thread other exit → other = entry := by
  refine ⟨fun other closingOther => ?_, fun other closingOther => ?_⟩
  · rcases Nat.lt_trichotomy other exit with earlier | same | later
    · exact absurd closing (closingOther.not_closes_of_lt earlier)
    · exact same
    · exact absurd closingOther (closing.not_closes_of_lt later)
  · obtain ⟨-, calls, outer, ran, top⟩ := closing
    obtain ⟨-, callsOther, outerOther, ranOther, topOther⟩ := closingOther
    rw [ran, Option.some.injEq] at ranOther
    subst ranOther
    exact (List.cons.inj (topOther.symm.trans top)).1

/-- A call on its thread's stack after `steps` steps and off it after `later` steps is closed
by an exit in between. -/
theorem exists_closes_of_mem {run : List (ScopeStep Thread)} {thread : Thread} {entry : Nat}
    {steps : Nat} {calls : Thread → List Nat} (ran : openCallsAt run steps = some calls)
    (member : entry ∈ calls thread) {later : Nat} (before : steps ≤ later)
    {final : Thread → List Nat} (ranLater : openCallsAt run later = some final)
    (absent : entry ∉ final thread) :
    ∃ exit, steps ≤ exit ∧ exit < later ∧ Closes run thread entry exit := by
  induction later, before using Nat.le_induction generalizing final with
  | base =>
    rw [ran, Option.some.injEq] at ranLater
    exact absurd (ranLater ▸ member) absent
  | succ later after inductionHypothesis =>
    rcases openCallsAt_succ_cases ranLater with
      ⟨-, earlier⟩ | ⟨step, previous, found, earlier, stepped⟩
    · obtain ⟨exit, low, high, closing⟩ := inductionHypothesis earlier absent
      exact ⟨exit, low, Nat.lt_succ_of_lt high, closing⟩
    · by_cases stillOpen : entry ∈ previous thread
      · obtain ⟨rfl, outer, top⟩ := openCallsStep_removed stepped stillOpen absent
        exact ⟨later, after, Nat.lt_succ_self _, found, previous, outer, earlier, top⟩
      · obtain ⟨exit, low, high, closing⟩ := inductionHypothesis earlier stillOpen
        exact ⟨exit, low, Nat.lt_succ_of_lt high, closing⟩

/-- A call stays open from its entry until the exit that closes it. -/
theorem Closes.mem_openCallsAt {run : List (ScopeStep Thread)} {thread : Thread}
    {entry exit : Nat} (closing : Closes run thread entry exit) {steps : Nat}
    (after : entry < steps) (upTo : steps ≤ exit) :
    ∃ calls, openCallsAt run steps = some calls ∧ entry ∈ calls thread := by
  obtain ⟨-, final, outer, ranExit, top⟩ := closing
  obtain ⟨calls, ran⟩ := openCallsAt_of_le ranExit upTo
  refine ⟨calls, ran, Decidable.byContradiction fun absent => ?_⟩
  exact not_mem_openCallsAt_of_le ran absent after upTo ranExit
    (top ▸ List.mem_cons_self _ _)

/-- Calls nest: a call its thread enters while another of its calls is open is closed before
that call is. -/
theorem Closes.nested {run : List (ScopeStep Thread)} {thread : Thread} {entry exit : Nat}
    (closing : Closes run thread entry exit) {inner : Nat}
    (entered : run[inner]? = some (.increment thread)) (after : entry < inner)
    (within : inner < exit) :
    ∃ innerExit, innerExit < exit ∧ Closes run thread inner innerExit := by
  obtain ⟨calls, ran, member⟩ := closing.mem_openCallsAt after within.le
  have pushed : openCallsAt run (inner + 1) =
      some (Function.update calls thread (inner :: calls thread)) := by
    rw [openCallsAt_succ entered, ran]
    rfl
  obtain ⟨-, final, outer, ranExit, top⟩ := closing
  have absent : inner ∉ final thread := by
    rw [top]
    rintro (_ | ⟨_, deeper⟩)
    · exact Nat.lt_irrefl _ after
    obtain ⟨below, suffix, frame⟩ :=
      (enteredOnTop_openCallsAt ranExit).frame_of_mem (top ▸ List.suffix_cons entry outer) deeper
    rw [ran, Option.map_some', Option.some.injEq] at frame
    exact not_mem_of_openCallsAt ranExit top
      (suffix.subset (List.mem_cons_of_mem _ (frame ▸ member)))
  obtain ⟨innerExit, -, before, closingInner⟩ :=
    exists_closes_of_mem pushed (by simp) within ranExit absent
  exact ⟨innerExit, before, closingInner⟩

end Gfxrecon.Encode
