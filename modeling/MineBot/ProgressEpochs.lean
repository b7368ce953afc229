import Mathlib
import MineBot.ProgressAuthority
import MineBot.Table
import MineBot.Text
import MineBot.WorkIntents

/-!
# Progress epochs

`ProgressEpochAdapter._finalize` makes one record of a batch of tool calls,
stores it, and then commits the steps to the live authority;
`replay_progress_epoch` makes the same commit again from the record a later
process reads back. What `json.dumps` wrote comes back from `json.loads` as
the `Json` value it stands for.

The process may stop between the store and the mark of a stop, so `finalize`
keeps the database as it is at both points.
-/

namespace MineBot

open Table

/-! ## Epochs -/

/-- `_ProgressEpochMember`. -/
structure EpochMember where
  toolName : String
  order : Int
  progressSteps : List ProgressStep
  observationHandle : Option String
  epistemicKeys : List String
  pendingAbort : Option ProgressAbort
  materialEvidence : List String
  /-- its entry in the record, which nothing reads back -/
  entry : JsonObject

/-- `_ProgressEpoch`. -/
structure ProgressEpoch where
  epochId : String
  runId : String
  modelTurn : Int
  preBodyFingerprint : Option String
  members : List EpochMember
  budgetCheckpointId : Option String
  taskIdentityBound : Bool
  taskId : Option String

/-- The last fingerprint that is not empty. -/
def lastFingerprintOf (steps : List ProgressStep) : Option String :=
  (steps.reverse.find? (·.fingerprint ≠ "")).map (·.fingerprint)

/-- `_collapsed_epoch_progress_steps`. -/
def collapsedEpochProgressSteps (members : List EpochMember) : List ProgressStep :=
  let steps := members.flatMap (·.progressSteps)
  let actionKey : ActionKey :=
    [.str "progress_epoch", .tuple (steps.map fun step => .tuple step.actionKey)]
  let collapsed (kind : ProgressStepKind) (terminal : ProgressStep) (success : Option Bool)
      (neutral : Bool) : ProgressStep :=
    { kind := kind
      actionKey := actionKey
      fingerprint := (lastFingerprintOf steps).getD terminal.fingerprint
      success := success
      neutral := neutral }
  match steps.getLast? with
  | none => []
  | some last =>
      match (steps.filter fun step => step.kind = .note ∧ step.neutral = false).getLast? with
      | some terminal => [collapsed .note terminal terminal.success false]
      | none => match (steps.filter fun step => step.kind = .observe).getLast? with
        | some terminal => [collapsed .observe terminal none false]
        | none => [collapsed .note last last.success true]

/-! ## The record -/

def Json.ofOption (text : Option String) : Json := (text.map Json.str).getD .null

def Json.texts (texts : List String) : Json := .arr (texts.map .str)

/-- `asdict` of the facts, as `json.dumps` writes it. -/
def ProgressFacts.toJson (facts : ProgressFacts) : JsonObject :=
  [("goal", .str facts.goal),
   ("last_action", (facts.lastAction.map ActionKey.toJson).getD .null),
   ("stagnant_steps", .int facts.stagnantSteps),
   ("stalled_steps", .int facts.stalledSteps),
   ("failure_steps", .int facts.failureSteps),
   ("last_fingerprint", .str facts.lastFingerprint),
   ("current_fingerprint", .str facts.currentFingerprint),
   ("recent_events", .texts facts.recentEvents),
   ("epistemic_steps", .int facts.epistemicSteps),
   ("last_epistemic_keys", .texts facts.lastEpistemicKeys)]

def ProgressStepKind.value : ProgressStepKind → String
  | .observe => "observe"
  | .note => "note"

/-- `asdict` of a step, as `json.dumps` writes it. -/
def ProgressStep.toJson (step : ProgressStep) : JsonObject :=
  [("kind", .str step.kind.value),
   ("action_key", step.actionKey.toJson),
   ("fingerprint", .str step.fingerprint),
   ("success", (step.success.map Json.bool).getD .null),
   ("neutral", .bool step.neutral)]

/-- The record that `_finalize` stores. -/
structure EpochRecord where
  epochId : String
  runId : String
  modelTurn : Int
  members : List JsonObject
  preBodyFingerprint : Option String
  postBodyFingerprint : Option String
  evidenceRefs : List String
  epistemicKeys : List String
  materialChanged : Bool
  budgetCheckpointId : Option String
  commitInput : JsonObject

/-- A row of `progress_epochs`. -/
structure ProgressEpochRow where
  cursor : Nat
  epochId : String
  scopeKey : String
  runId : String
  modelTurn : Int
  members : List JsonObject
  preBodyFingerprint : Option String
  postBodyFingerprint : Option String
  evidenceRefs : List String
  epistemicKeys : List String
  novelEpistemicKeys : List String
  materialChanged : Bool
  progressAborted : Bool
  progressStopReason : Option String
  budgetCheckpointId : Option String
  commitInput : Option JsonObject
  settledAt : String

/-- A row of `progress_evidence`. -/
structure ProgressEvidenceRow where
  scopeKey : String
  evidenceKey : String
  firstEpochCursor : Nat
  lastEpochCursor : Nat
  seenCount : Nat
  lastObservationHandle : Option String

structure ProgressStore where
  epochs : List ProgressEpochRow
  evidence : List ProgressEvidenceRow
  /-- the last `AUTOINCREMENT` cursor -/
  lastCursor : Nat

/-- What `create_progress_epoch` raises. -/
inductive EpochStoreError where
  /-- `ValueError` of `_required_text` -/
  | emptyText (field : String)
  /-- model_turn must be at least 1 -/
  | modelTurn
  /-- progress epoch members must be a list of at most 128 items -/
  | tooManyMembers
  | integerTooLarge
  /-- progress epoch insert failed -/
  | insertFailed
  /-- SQLite itself -/
  | database
deriving DecidableEq

/-- `_bounded_text(value or "") or None`. -/
def boundedTextOrNone (value : Option String) (maxLength : Nat) : Option String :=
  match boundedText (value.getD "") maxLength with
  | "" => none
  | clean => some clean

namespace ProgressStore

/-- The loop over the evidence keys: the new ones among them. -/
def recordEvidence (scopeKey : String) (cursor : Nat) (handle : Option String) :
    List String → List ProgressEvidenceRow → List String × List ProgressEvidenceRow
  | [], evidence => ([], evidence)
  | key :: keys, evidence =>
      if evidence.any fun row => row.scopeKey = scopeKey ∧ row.evidenceKey = key then
        recordEvidence scopeKey cursor handle keys
          (updateWhere (fun row => row.scopeKey = scopeKey ∧ row.evidenceKey = key)
            (fun row => { row with
              lastEpochCursor := cursor
              seenCount := row.seenCount + 1
              lastObservationHandle := handle.or row.lastObservationHandle }) evidence)
      else
        let (novel, evidence) := recordEvidence scopeKey cursor handle keys
          (evidence ++ [⟨scopeKey, key, cursor, cursor, 1, handle⟩])
        (key :: novel, evidence)

/-- `get_progress_epoch`. -/
def getProgressEpoch (st : ProgressStore) (scope : RuntimeScope) (epochId : String) :
    Option ProgressEpochRow :=
  st.epochs.find? fun row => row.scopeKey = scope.key ∧ row.epochId = epochId

/-- The row breaks a unique constraint. -/
def clashes (st : ProgressStore) (row : ProgressEpochRow) : Bool :=
  st.epochs.any fun other => other.epochId = row.epochId ∨
    (other.scopeKey = row.scopeKey ∧ other.runId = row.runId ∧ other.modelTurn = row.modelTurn)

/-- `create_progress_epoch`: the row it returns, and whether it inserted it. -/
def createProgressEpoch (st : ProgressStore) (scope : RuntimeScope) (record : EpochRecord)
    (now : String) : Except EpochStoreError ((ProgressEpochRow × Bool) × ProgressStore) :=
  match requiredText record.epochId 256, requiredText record.runId 256 with
  | none, _ => .error (.emptyText "epoch_id")
  | _, none => .error (.emptyText "run_id")
  | some epochId, some runId =>
      if record.modelTurn < 1 then .error .modelTurn
      else if 128 < record.members.length then .error .tooManyMembers
      else if !fitsInt64 record.modelTurn then .error .integerTooLarge
      else
        let evidenceRefs := boundedTextList record.evidenceRefs 128 256
        let epistemicKeys := boundedTextList record.epistemicKeys 256 512
        let row : ProgressEpochRow :=
          { cursor := st.lastCursor + 1
            epochId := epochId
            scopeKey := scope.key
            runId := runId
            modelTurn := record.modelTurn
            members := record.members
            preBodyFingerprint := boundedTextOrNone record.preBodyFingerprint 2000
            postBodyFingerprint := boundedTextOrNone record.postBodyFingerprint 2000
            evidenceRefs := evidenceRefs
            epistemicKeys := epistemicKeys
            novelEpistemicKeys := []
            materialChanged := record.materialChanged
            progressAborted := false
            progressStopReason := none
            budgetCheckpointId := boundedTextOrNone record.budgetCheckpointId 256
            commitInput := some record.commitInput
            settledAt := now }
        if st.clashes row then
          match st.getProgressEpoch scope epochId with
          | none => .error .insertFailed
          | some existing => .ok ((existing, false), st)
        else
          let (novel, evidence) :=
            recordEvidence scope.key row.cursor evidenceRefs.getLast? epistemicKeys st.evidence
          let row := { row with novelEpistemicKeys := novel }
          .ok ((row, true),
            { epochs := st.epochs ++ [row], evidence := evidence, lastCursor := row.cursor })

/-- `mark_progress_epoch_aborted`; `none` where it raises. -/
def markProgressEpochAborted (st : ProgressStore) (scope : RuntimeScope) (epochId : String)
    (reason : ProgressStopReason) : Option ProgressStore :=
  let marks (row : ProgressEpochRow) : Bool := row.scopeKey = scope.key ∧ row.epochId = epochId
  if (st.epochs.filter marks).length ≠ 1 then none
  else some { st with
    epochs := updateWhere marks (fun row => { row with
      progressAborted := true
      progressStopReason := row.progressStopReason.or (some reason.value) }) st.epochs }

end ProgressStore

/-! ## `_finalize` -/

namespace ProgressEpoch

variable (epoch : ProgressEpoch) (isTaskClosure : String → Bool)

/-- The members in the order of their calls. -/
def ordered : List EpochMember := epoch.members.mergeSort fun m n => m.order ≤ n.order

def committedSteps : List ProgressStep := collapsedEpochProgressSteps epoch.ordered

def closureOnly : Bool :=
  epoch.committedSteps.isEmpty && epoch.ordered.all fun member => isTaskClosure member.toolName

def materialChanged : Bool := epoch.ordered.any fun member => !member.materialEvidence.isEmpty

def pendingAborts : List (Option ProgressAbort) := epoch.ordered.map (·.pendingAbort)

/-- `post_fingerprint`. -/
def postFingerprint (a : ProgressAuthority) : Option String :=
  (lastFingerprintOf (epoch.ordered.flatMap (·.progressSteps))).or
    (if a.currentFingerprint = "" then epoch.preBodyFingerprint else some a.currentFingerprint)

/-- `commit_input`. -/
def commitInput (a : ProgressAuthority) (goalText : String) : JsonObject :=
  [("version", .int 1),
   ("task_identity_bound", .bool epoch.taskIdentityBound),
   ("task_id", .ofOption epoch.taskId),
   ("apply", .bool !epoch.closureOnly isTaskClosure),
   ("authority_before", .obj (a.facts goalText).toJson),
   ("steps", .arr (epoch.committedSteps.map fun step => .obj step.toJson)),
   ("pending_stop_reasons",
     .texts ((epoch.pendingAborts.filterMap id).map fun abort => abort.stopReason.value))]

/-- The record that `_finalize` builds. -/
def record (a : ProgressAuthority) (goalText : String) : EpochRecord where
  epochId := epoch.epochId
  runId := epoch.runId
  modelTurn := epoch.modelTurn
  members := epoch.ordered.map (·.entry)
  preBodyFingerprint := epoch.preBodyFingerprint
  postBodyFingerprint := epoch.postFingerprint a
  evidenceRefs := epoch.ordered.filterMap (·.observationHandle)
  epistemicKeys := (epoch.ordered.flatMap (·.epistemicKeys)).eraseDups
  materialChanged := epoch.materialChanged
  budgetCheckpointId := epoch.budgetCheckpointId
  commitInput := epoch.commitInput isTaskClosure a goalText

/-- The commit to the live authority. -/
def commit (a : ProgressAuthority) (novel : List String) : Except String ProgressAuthority :=
  if epoch.closureOnly isTaskClosure then .ok a
  else a.commitSteps epoch.committedSteps novel epoch.materialChanged

/-- What `_finalize` leaves behind. -/
structure Finalized where
  authority : ProgressAuthority
  abort : Option ProgressAbort
  /-- the row `store` returned and whether it is new, where it did not raise -/
  stored : Option (ProgressEpochRow × Bool)
  /-- `mark_progress_aborted` raised -/
  markFailed : Bool
  /-- the database as `mark_progress_aborted` finds it -/
  beforeMark : ProgressStore
  store : ProgressStore

/-- The tail of `_finalize`: the stop is marked on the epoch and bound to it. -/
def markAbort (scope : RuntimeScope) (st : ProgressStore) (markFault : Bool)
    (abort : Option ProgressAbort) : Option ProgressAbort × Bool × ProgressStore :=
  let bound (abort : ProgressAbort) : ProgressAbort :=
    { abort with stopEpochId := some epoch.epochId }
  match abort with
  | none => (none, false, st)
  | some abort =>
      let marked := if markFault then none
        else st.markProgressEpochAborted scope epoch.epochId abort.stopReason
      match marked with
      | some st => (some (bound abort), false, st)
      | none =>
          ((dominantProgressAbort
            [some abort, some { message := "progress stop persistence failed" }]).map bound,
            true, st)

/-- `_finalize` with an archive. A fault is a database that raises at that
call. -/
def finalize (a : ProgressAuthority) (goalText : String) (st : ProgressStore)
    (scope : RuntimeScope) (now : String) (storeFault markFault : Bool) :
    Except String Finalized := do
  let created := if storeFault then .error .database
    else st.createProgressEpoch scope (epoch.record isTaskClosure a goalText) now
  let (stored, novel, archiveAbort, beforeMark) :=
    match created with
    | .ok (stored, st) => (some stored, stored.1.novelEpistemicKeys, none, st)
    | .error _ =>
        (none, [], some ({ message := "progress epoch persistence failed" } : ProgressAbort), st)
  let authority ← epoch.commit isTaskClosure a novel
  let (abort, markFailed, store) := epoch.markAbort scope beforeMark markFault
    (dominantProgressAbort (archiveAbort :: epoch.pendingAborts))
  return { authority, abort, stored, markFailed, beforeMark, store }

end ProgressEpoch

end MineBot
