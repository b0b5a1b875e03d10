import D3D12Capture.CallScope

/-
This file models the three capture hooks `D3D12CaptureManager` defines in its header:
`EndCreateMethodCallCapture` and `EndCommandListMethodCallCapture`, which end the capture of an
intercepted call, and `ProcessWrapperDestroy`, which runs when a wrapper is destroyed. Their
observable behaviour is the calls they make, in order, on the state tracker and on the manager's
own `EndMethodCallCapture`, which finishes the call's record; a hook is modelled as that list.
The state tracker and `EndMethodCallCapture` are declared elsewhere and are not modelled.

Pointers are values, with `Option` for the ones the hooks compare with `nullptr`. `kModeTrack` is
a flag of `CaptureManager`, declared outside this header, and is a parameter.
-/

namespace Gfxrecon.Encode

/-! ### What the hooks read -/

/-- `(GetCaptureMode() & kModeTrack) == kModeTrack`: the test each hook makes before it calls the
state tracker. -/
def isTrackMode (captureMode modeTrack : UInt32) : Bool :=
  (captureMode &&& modeTrack) == modeTrack

/-- `SUCCEEDED(result)`: an `HRESULT` is a signed 32-bit value, not negative on success. -/
def succeeded (result : BitVec 32) : Bool :=
  decide (0 ≤ result.toInt)

/-- The part of `GetThreadData()` the hooks read: the calling thread's current call id and its
staged parameter bytes. -/
structure ThreadData where
  callId : Nat
  parameterBuffer : Nat
  deriving DecidableEq, Repr

/-- A call a hook makes: a method of the state tracker, or `EndMethodCallCapture`. The `handle`
of `AddEntry` is the object the creation wrote through its output parameter, `*handle`: the
source passes the pointer `handle` itself, and the tracker reads the object through it. -/
inductive CaptureCall where
  | addEntry (riid handle callId createObjectWrapper parameterBuffer : Nat)
  | trackCommand (listWrapper callId parameterBuffer : Nat) (handles : List Nat)
  | removeEntry (wrapper : Nat)
  | trackRelease (wrapper : Nat)
  | endMethodCallCapture
  deriving DecidableEq, Repr

/-! ### The hooks -/

/-- `EndCreateMethodCallCapture`. `handle` is the output parameter `void** handle`: `none` when it
is null, and otherwise `*handle`, `none` when that is null. -/
def endCreateMethodCallCapture (captureMode modeTrack : UInt32) (threadData : ThreadData)
    (result : BitVec 32) (riid : Nat) (handle : Option (Option Nat))
    (createObjectWrapper : Nat) : List CaptureCall :=
  (if isTrackMode captureMode modeTrack && succeeded result then
    match handle with
    | some (some object) =>
      [.addEntry riid object threadData.callId createObjectWrapper threadData.parameterBuffer]
    | _ => []
  else []) ++ [.endMethodCallCapture]

/-- `EndCommandListMethodCallCapture` with a handle extractor: `handles` are the object handles
that `func` extracts from `args`, which the state tracker records with the command. -/
def endCommandListMethodCallCapture (captureMode modeTrack : UInt32) (threadData : ThreadData)
    (listWrapper : Nat) (handles : List Nat) : List CaptureCall :=
  (if isTrackMode captureMode modeTrack then
    [.trackCommand listWrapper threadData.callId threadData.parameterBuffer handles]
  else []) ++ [.endMethodCallCapture]

/-- `ProcessWrapperDestroy`. -/
def processWrapperDestroy (captureMode modeTrack : UInt32) (wrapper : Nat) : List CaptureCall :=
  if isTrackMode captureMode modeTrack then [.removeEntry wrapper, .trackRelease wrapper] else []

/-! ### What the hooks do -/

/-- A creation registers its object, under the calling thread's call id and staged parameters,
exactly when the manager tracks, the call succeeded and the output holds an object. -/
theorem endCreateMethodCallCapture_eq_addEntry_iff (captureMode modeTrack : UInt32)
    (threadData : ThreadData) (result : BitVec 32) (riid : Nat) (handle : Option (Option Nat))
    (createObjectWrapper object : Nat) :
    endCreateMethodCallCapture captureMode modeTrack threadData result riid handle
        createObjectWrapper =
      [.addEntry riid object threadData.callId createObjectWrapper threadData.parameterBuffer,
        .endMethodCallCapture] ↔
      isTrackMode captureMode modeTrack = true ∧ succeeded result = true ∧
        handle = some (some object) := by
  unfold endCreateMethodCallCapture
  split
  · rename_i tracked
    rw [Bool.and_eq_true] at tracked
    split <;> simp_all
  · rename_i untracked
    rw [Bool.and_eq_true] at untracked
    simp only [List.nil_append, List.cons.injEq, reduceCtorEq, false_and, false_iff]
    exact fun ⟨tracks, success, _⟩ => untracked ⟨tracks, success⟩

/-- Otherwise the state tracker is not called at all, and the record is finished. -/
theorem endCreateMethodCallCapture_eq_end_iff (captureMode modeTrack : UInt32)
    (threadData : ThreadData) (result : BitVec 32) (riid : Nat) (handle : Option (Option Nat))
    (createObjectWrapper : Nat) :
    endCreateMethodCallCapture captureMode modeTrack threadData result riid handle
        createObjectWrapper = [.endMethodCallCapture] ↔
      ¬ (isTrackMode captureMode modeTrack = true ∧ succeeded result = true ∧
        ∃ object, handle = some (some object)) := by
  unfold endCreateMethodCallCapture
  split
  · rename_i tracked
    rw [Bool.and_eq_true] at tracked
    split <;> simp_all
  · rename_i untracked
    rw [Bool.and_eq_true] at untracked
    simp only [List.nil_append, true_iff]
    exact fun ⟨tracks, success, _⟩ => untracked ⟨tracks, success⟩

/-- Outside track mode no hook calls the state tracker. -/
theorem hooks_of_isTrackMode_false {captureMode modeTrack : UInt32}
    (untracked : isTrackMode captureMode modeTrack = false) (threadData : ThreadData)
    (result : BitVec 32) (riid : Nat) (handle : Option (Option Nat))
    (createObjectWrapper listWrapper wrapper : Nat) (handles : List Nat) :
    endCreateMethodCallCapture captureMode modeTrack threadData result riid handle
        createObjectWrapper = [.endMethodCallCapture] ∧
      endCommandListMethodCallCapture captureMode modeTrack threadData listWrapper handles =
        [.endMethodCallCapture] ∧
      processWrapperDestroy captureMode modeTrack wrapper = [] := by
  unfold endCreateMethodCallCapture endCommandListMethodCallCapture processWrapperDestroy
  simp only [untracked, Bool.false_and, Bool.false_eq_true, if_false, List.nil_append, and_self]

/-- Both hooks that end a call finish its record once, after every call on the state tracker. -/
theorem endMethodCallCapture_last (captureMode modeTrack : UInt32) (threadData : ThreadData)
    (result : BitVec 32) (riid : Nat) (handle : Option (Option Nat))
    (createObjectWrapper listWrapper : Nat) (handles : List Nat) :
    ∃ tracker, .endMethodCallCapture ∉ tracker ∧
      endCreateMethodCallCapture captureMode modeTrack threadData result riid handle
        createObjectWrapper = tracker ++ [.endMethodCallCapture] ∧
      ∃ commands, .endMethodCallCapture ∉ commands ∧
        endCommandListMethodCallCapture captureMode modeTrack threadData listWrapper handles =
          commands ++ [.endMethodCallCapture] := by
  refine ⟨_, ?_, rfl, _, ?_, rfl⟩
  · split
    · split <;> simp
    · simp
  · split <;> simp

end Gfxrecon.Encode
