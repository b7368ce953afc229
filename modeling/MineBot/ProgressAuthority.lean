import Mathlib
import MineBot.Json

/-!
# The progress authority

`brain/progress.py`: the counters of the run, and how captured steps move
them. The facts are what outlives the process. No capture is active where
these functions are called; with one active they raise.

The counters are naturals: they start at zero, are only counted up or reset,
and a negative one is refused on restore.
-/

namespace MineBot

/-! ## Action keys -/

/-- A component of an action key. -/
inductive KeyItem where
  | none
  | bool (b : Bool)
  | int (n : Int)
  | float (q : Rat)
  | str (s : String)
  | tuple (items : List KeyItem)

/-- An action key: a tuple. -/
abbrev ActionKey := List KeyItem

mutual

/-- What `json.dumps` writes for a component: a tuple becomes an array. -/
def KeyItem.toJson : KeyItem → Json
  | .none => .null
  | .bool b => .bool b
  | .int n => .int n
  | .float q => .float q
  | .str s => .str s
  | .tuple items => .arr (KeyItem.listToJson items)

def KeyItem.listToJson : List KeyItem → List Json
  | [] => []
  | item :: items => item.toJson :: KeyItem.listToJson items

end

def ActionKey.toJson (key : ActionKey) : Json := .arr (KeyItem.listToJson key)

/-- `a == b` of two action keys. Tuples compare as the arrays they are
written as. -/
def ActionKey.pyEq (a b : ActionKey) : Bool := a.toJson.pyEq b.toJson

/-! ## Steps and facts -/

inductive ProgressStepKind where
  | observe
  | note
deriving DecidableEq

structure ProgressStep where
  kind : ProgressStepKind
  actionKey : ActionKey
  fingerprint : String
  success : Option Bool := none
  neutral : Bool := false

structure ProgressFacts where
  goal : String
  lastAction : Option ActionKey
  stagnantSteps : Nat
  stalledSteps : Nat
  failureSteps : Nat
  lastFingerprint : String
  currentFingerprint : String
  recentEvents : List String
  epistemicSteps : Nat
  lastEpistemicKeys : List String

/-- `ProgressAuthority`, less its generation and its captures. -/
structure ProgressAuthority where
  stagnantSteps : Nat := 0
  stalledSteps : Nat := 0
  failureSteps : Nat := 0
  lastAction : Option ActionKey := none
  lastFingerprint : String := ""
  currentFingerprint : String := ""
  recentEvents : List String := []
  epistemicSteps : Nat := 0
  lastEpistemicKeys : List String := []

namespace ProgressAuthority

variable (a : ProgressAuthority)

/-- `facts`. -/
def facts (goalText : String) : ProgressFacts where
  goal := goalText
  lastAction := a.lastAction
  stagnantSteps := a.stagnantSteps
  stalledSteps := a.stalledSteps
  failureSteps := a.failureSteps
  lastFingerprint := a.lastFingerprint
  currentFingerprint := a.currentFingerprint
  recentEvents := a.recentEvents
  epistemicSteps := a.epistemicSteps
  lastEpistemicKeys := a.lastEpistemicKeys

/-- `restore_facts`. -/
def restoreFacts (facts : ProgressFacts) : ProgressAuthority where
  stagnantSteps := facts.stagnantSteps
  stalledSteps := facts.stalledSteps
  failureSteps := facts.failureSteps
  epistemicSteps := facts.epistemicSteps
  lastAction := facts.lastAction
  lastFingerprint := facts.lastFingerprint
  currentFingerprint := facts.currentFingerprint
  lastEpistemicKeys := facts.lastEpistemicKeys
  recentEvents := facts.recentEvents

/-- `_apply_observation`. -/
def applyObservation (actionKey : ActionKey) (fingerprint : String) : ProgressAuthority :=
  let a := { a with currentFingerprint := fingerprint }
  let progressed := a.lastFingerprint ≠ "" ∧ fingerprint ≠ a.lastFingerprint
  let a :=
    if a.lastFingerprint = "" ∨ progressed then { a with stagnantSteps := 0, stalledSteps := 0 }
    else if a.lastAction.any actionKey.pyEq then
      { a with stagnantSteps := a.stagnantSteps + 1, stalledSteps := a.stalledSteps + 1 }
    else { a with stalledSteps := a.stalledSteps + 1 }
  { a with lastAction := some actionKey, lastFingerprint := fingerprint }

/-- `_apply_note`. -/
def applyNote (actionKey : ActionKey) (success : Bool) (fingerprint : String) (neutral : Bool) :
    ProgressAuthority :=
  if neutral then { a with currentFingerprint := fingerprint }
  else if success then
    { a with
      currentFingerprint := fingerprint
      stagnantSteps := 0
      stalledSteps := 0
      failureSteps := 0
      lastAction := some actionKey
      lastFingerprint := fingerprint }
  else
    let a := a.applyObservation actionKey fingerprint
    { a with
      failureSteps := a.failureSteps + 1
      lastAction := some actionKey
      lastFingerprint := fingerprint }

/-- One step of the loop of `commit_steps`; a note without an outcome fails
its assertion. -/
def commitStep (step : ProgressStep) : Except String ProgressAuthority :=
  match step.kind, step.success with
  | .observe, _ => .ok (a.applyObservation step.actionKey step.fingerprint)
  | .note, some success =>
      .ok (a.applyNote step.actionKey success step.fingerprint step.neutral)
  | .note, none => .error "AssertionError"

/-- `tuple(dict.fromkeys(key for key in keys if key))`. -/
def distinctKeys (keys : List String) : List String :=
  keys.foldl (fun seen key => if key = "" ∨ key ∈ seen then seen else seen ++ [key]) []

/-- `commit_steps`. -/
def commitSteps (steps : List ProgressStep) (novelEpistemicKeys : List String)
    (materialChanged : Bool) : Except String ProgressAuthority := do
  let a ← steps.foldlM commitStep a
  let epistemicKeys := distinctKeys novelEpistemicKeys
  if materialChanged then
    .ok { a with epistemicSteps := 0, lastEpistemicKeys := [], failureSteps := 0 }
  else if epistemicKeys ≠ [] then
    .ok { a with
      epistemicSteps := a.epistemicSteps + 1
      lastEpistemicKeys := epistemicKeys
      stagnantSteps := 0
      stalledSteps := 0
      recentEvents := a.recentEvents
        ++ [s!"epistemic_progress:{a.epistemicSteps + 1}:{epistemicKeys.length}"] }
  else .ok a

/-- The facts are all there is to restore. -/
theorem restoreFacts_facts (goalText : String) : restoreFacts (a.facts goalText) = a := rfl

end ProgressAuthority

/-! ## Stops -/

inductive ProgressStopReason where
  | unknown
  | noProgress
  | epistemicBudget
  | bodyTransport
deriving DecidableEq

namespace ProgressStopReason

def value : ProgressStopReason → String
  | .unknown => "unknown"
  | .noProgress => "no_progress"
  | .epistemicBudget => "epistemic_budget"
  | .bodyTransport => "body_transport"

/-- `ProgressStopReason(text)`. -/
def ofText? (text : String) : Option ProgressStopReason :=
  [unknown, noProgress, epistemicBudget, bodyTransport].find? (·.value = text)

/-- `REVIEWABLE_STOP_REASONS`. -/
def reviewable : ProgressStopReason → Bool
  | .noProgress | .epistemicBudget => true
  | _ => false

/-- The priorities of `dominant_progress_abort`. -/
def priority : ProgressStopReason → Nat
  | .noProgress => 0
  | .epistemicBudget => 1
  | .unknown => 2
  | .bodyTransport => 3

end ProgressStopReason

structure ProgressAbort where
  message : String
  stopReason : ProgressStopReason := .unknown
  stopEpochId : Option String := none

/-- `dominant_progress_abort`. -/
def dominantProgressAbort (aborts : List (Option ProgressAbort)) : Option ProgressAbort :=
  (aborts.filterMap id).argmax (·.stopReason.priority)

end MineBot
