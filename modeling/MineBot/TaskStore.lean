import Mathlib
import MineBot.RuntimeRecords
import MineBot.Table
import MineBot.Text

/-!
# The task tables

The methods of `RuntimeStateStore` on tasks, plans and checkpoints. Each
is one transaction, which a raising body rolls back, and a read of what
it wrote in a second critical section. A transaction is therefore a
function to `Except`: the tables it leaves, or what it raises.

The unique constraints are checked where a row is written: the primary
keys, and `idx_tasks_one_foreground`, one foreground task a scope. Ids
drawn by `uuid4` are arguments.
-/

namespace MineBot

open Table

/-! ## Records -/

inductive CompletionAuthority where
  | none
  | bodyTruth
  | model
  | human
deriving DecidableEq

inductive PlanStepStatus where
  | pending
  | inProgress
  | completed
  | blocked
  | skipped
deriving DecidableEq

inductive ContinuationOperationClass where
  | epistemic
  | material
  | mixed
deriving DecidableEq

/-- A row of `tasks`. -/
structure TaskRecord extends TaskRow where
  revision : Int
  goalText : String
  source : String
  requestedBy : String
  completionAuthority : CompletionAuthority
  activePlanId : Option String
  createdAt : Nat
deriving DecidableEq

/-- A row of `task_plans`. -/
structure TaskPlanRow where
  planId : String
  taskId : String
  revision : Int
  summary : String
  createdAt : Nat
  updatedAt : Nat
deriving DecidableEq

/-- A row of `task_plan_steps`. -/
structure PlanStepRow where
  stepId : String
  planId : String
  ordinal : Nat
  title : String
  status : PlanStepStatus
  evidence : List String
  blocker : Option String
  updatedAt : Nat
deriving DecidableEq

/-- `ContinuationContract`, all of it. -/
structure ContinuationTerms extends ContinuationContract where
  objective : String
  operationClass : ContinuationOperationClass
  targetDescriptor : JsonObject
  expectedEvidence : List String
  evidenceCursor : Int
deriving DecidableEq

/-- A row of `task_checkpoints`. -/
structure TaskCheckpointRow where
  checkpointId : String
  taskId : String
  revision : Int
  disposition : CheckpointDisposition
  summary : String
  nextStep : String
  evidence : List String
  waitFor : List String
  bodyFingerprint : Option JsonObject
  continuation : Option ContinuationTerms
  createdAt : Nat
deriving DecidableEq

structure TaskDb where
  tasks : List TaskRecord
  plans : List TaskPlanRow
  steps : List PlanStepRow
  checkpoints : List TaskCheckpointRow
deriving DecidableEq

/-- What the store and the workspace raise. -/
inductive TaskError where
  /-- ... must not be empty -/
  | emptyText (field : String)
  /-- scope ... already has foreground work -/
  | foregroundExists (scopeKey : String)
  /-- `sqlite3.IntegrityError` -/
  | integrity
  /-- task revision conflict -/
  | taskRevision (taskId : String) (expected : Int)
  /-- task revision conflict, from the workspace -/
  | taskRevisionRead (taskId : String) (expected actual : Int)
  /-- task not found -/
  | taskNotFound (taskId : String)
  /-- plan revision conflict, of a task without a plan -/
  | planRevisionOfTask (taskId : String) (expected : Int)
  /-- plan revision conflict -/
  | planRevision (planId : String) (expected actual : Int)
  /-- task ... references missing plan ... -/
  | missingPlan (taskId planId : String)
  /-- plan exceeds 64 steps -/
  | tooManySteps
  /-- plan step ... must be an object -/
  | stepNotObject (index : Nat)
  /-- invalid plan step status at index ... -/
  | stepStatus (index : Nat)
  /-- expected a list of strings -/
  | notStringList
  /-- at most one plan step may be in_progress -/
  | severalInProgress
  /-- `TypeError` of `json.dumps` -/
  | notSerializable
  /-- no active task -/
  | noActiveTask
  /-- continue checkpoints require exactly one continuation contract -/
  | continuationMismatch
  /-- complete checkpoints require bounded completion evidence -/
  | completionEvidence
  /-- `AssertionError`: a record just written is not there -/
  | recordMissing
deriving DecidableEq

/-- `_required_text`, raising. -/
def requireText (field value : String) (maxLength : Nat) : Except TaskError String :=
  match requiredText value maxLength with
  | some clean => .ok clean
  | none => .error (.emptyText field)

/-! ## Plan steps -/

/-- A plan step as `_normalize_plan_steps` reads it: `str` of its entries,
an absent or falsy one read as its default. -/
structure PlanStepInput where
  title : String
  /-- `none` is a text that names no status -/
  status : Option PlanStepStatus
  /-- `none` is neither a list nor a tuple -/
  evidence : Option (List String)
  blocker : String

structure PlanStep where
  title : String
  status : PlanStepStatus
  evidence : List String
  blocker : Option String
deriving DecidableEq

/-- The body of the loop of `_normalize_plan_steps`; `none` is no object. -/
def normalizePlanStep (index : Nat) : Option PlanStepInput → Except TaskError PlanStep
  | none => .error (.stepNotObject index)
  | some raw => do
      let title ← requireText s!"steps[{index}].title" raw.title 500
      let status ← match raw.status with
        | some status => .ok status
        | none => .error (.stepStatus index)
      let evidence ← match raw.evidence with
        | some evidence => .ok (boundedTextList evidence 16 1000)
        | none => .error .notStringList
      let blocker := boundedText raw.blocker 1000
      return { title, status, evidence, blocker := if blocker = "" then none else some blocker }

/-- `_normalize_plan_steps`. -/
def normalizePlanSteps (steps : List (Option PlanStepInput)) : Except TaskError (List PlanStep) := do
  if 64 < steps.length then throw .tooManySteps
  let normalized ← steps.zipIdx.mapM fun (raw, index) => normalizePlanStep index raw
  if 1 < normalized.countP (·.status = .inProgress) then throw .severalInProgress
  return normalized

namespace TaskDb

/-! ## Reads -/

section Reads

variable (db : TaskDb)

/-- `get_task`. -/
def getTask (taskId : String) : Option TaskRecord := db.tasks.find? (·.taskId = taskId)

/-- `get_foreground_task`: the foreground task that was updated last, the
highest id among those. -/
def getForegroundTask (scopeKey : String) : Option TaskRecord :=
  (db.tasks.filter fun t => t.scopeKey = scopeKey ∧ t.status.foreground).foldl
    (fun best t => match best with
      | none => some t
      | some b =>
          if b.updatedAt < t.updatedAt ∨ b.updatedAt = t.updatedAt ∧ b.taskId < t.taskId
          then some t else some b) none

/-- `get_plan`: the plan row and its steps. -/
def getPlan (taskId : String) : Option (TaskPlanRow × List PlanStepRow) :=
  (db.plans.find? (·.taskId = taskId)).map fun plan =>
    (plan, (db.steps.filter (·.planId = plan.planId)).insertionSort (·.ordinal ≤ ·.ordinal))

/-- `get_checkpoint`. -/
def getCheckpoint (checkpointId : String) : Option TaskCheckpointRow :=
  db.checkpoints.find? (·.checkpointId = checkpointId)

end Reads

/-! ## Transactions -/

/-- The unique constraints of `tasks`. -/
def TasksUnique (tasks : List TaskRecord) : Prop :=
  Keyed (·.taskId) tasks ∧ Keyed (·.scopeKey) (tasks.filter (·.status.foreground))

instance (tasks : List TaskRecord) : Decidable (TasksUnique tasks) :=
  inferInstanceAs (Decidable (_ ∧ _))

section Transactions

variable (db : TaskDb)

/-- Writes `tasks`, if the constraints allow it. -/
def writeTasks (tasks : List TaskRecord) : Except TaskError TaskDb :=
  if TasksUnique tasks then .ok { db with tasks := tasks } else .error .integrity

/-- The row `create_task` and `replace_foreground_task` insert. -/
def newTask (scopeKey goalText requestedBy : String) (status : TaskStatus) (taskId : String)
    (now : Nat) (source : String) : TaskRecord where
  taskId := taskId
  scopeKey := scopeKey
  revision := 1
  goalText := goalText
  source := source
  requestedBy := boundedText requestedBy 128
  status := status
  completionAuthority := .none
  activePlanId := none
  latestCheckpointId := none
  createdAt := now
  updatedAt := now

/-- `create_task`. -/
def createTask (scopeKey goalText source requestedBy : String) (status : TaskStatus)
    (taskId : String) (now : Nat) : Except TaskError TaskDb := do
  let goal ← requireText "goal_text" goalText 4000
  let source ← requireText "source" source 128
  match db.writeTasks (db.tasks ++ [newTask scopeKey goal requestedBy status taskId now source]) with
  | .ok db => .ok db
  | .error _ => .error (.foregroundExists scopeKey)

/-- What `replace_foreground_task` leaves of a foreground task. -/
def cancelled (now : Nat) (t : TaskRecord) : TaskRecord :=
  { t with status := .cancelled, completionAuthority := .human, revision := t.revision + 1
           updatedAt := now }

/-- `replace_foreground_task`. -/
def replaceForegroundTask (scopeKey goalText source requestedBy : String) (taskId : String)
    (now : Nat) : Except TaskError TaskDb := do
  let goal ← requireText "goal_text" goalText 4000
  let db ← db.writeTasks (updateWhere (fun t => t.scopeKey = scopeKey ∧ t.status.foreground)
    (cancelled now) db.tasks)
  let source ← requireText "source" source 128
  db.writeTasks (db.tasks ++ [newTask scopeKey goal requestedBy .running taskId now source])

/-- `WHERE task_id = ? AND revision = ?`. -/
def atRevision (taskId : String) (revision : Int) (t : TaskRecord) : Bool :=
  t.taskId = taskId ∧ t.revision = revision

/-- `UPDATE tasks ... WHERE task_id = ? AND revision = ?`, which has to
meet one row. -/
def updateTaskAt (taskId : String) (revision : Int) (f : TaskRecord → TaskRecord) :
    Except TaskError TaskDb := do
  let db' ← db.writeTasks (updateWhere (atRevision taskId revision) f db.tasks)
  if db.tasks.countP (atRevision taskId revision) ≠ 1 then
    throw (.taskRevision taskId revision)
  return db'

/-- What `transition_task` makes of the row. -/
def transitioned (status : TaskStatus) (authority : Option CompletionAuthority) (now : Nat)
    (t : TaskRecord) : TaskRecord :=
  { t with
    status := status
    completionAuthority := authority.getD t.completionAuthority
    revision := t.revision + 1
    updatedAt := now }

/-- `transition_task`. -/
def transitionTask (taskId : String) (expectedRevision : Int) (status : TaskStatus)
    (authority : Option CompletionAuthority) (now : Nat) : Except TaskError TaskDb :=
  db.updateTaskAt taskId expectedRevision (transitioned status authority now)

/-- The rows `update_plan` inserts for the steps of a plan. -/
def stepRows (planId : String) (stepId : Nat → String) (now : Nat) (steps : List PlanStep) :
    List PlanStepRow :=
  steps.zipIdx.map fun (step, index) =>
    { stepId := stepId index
      planId := planId
      ordinal := index
      title := step.title
      status := step.status
      evidence := step.evidence
      blocker := step.blocker
      updatedAt := now }

/-- Inserts plan steps. -/
def insertSteps (rows : List PlanStepRow) : Except TaskError TaskDb :=
  let steps := db.steps ++ rows
  if Keyed (·.stepId) steps ∧ Keyed (fun r => (r.planId, r.ordinal)) steps then
    .ok { db with steps := steps }
  else .error .integrity

/-- Inserts a plan. -/
def insertPlan (plan : TaskPlanRow) : Except TaskError TaskDb :=
  if Keyed (·.planId) (db.plans ++ [plan]) then .ok { db with plans := db.plans ++ [plan] }
  else .error .integrity

/-- What `update_plan` makes of the row of a task that had no plan. -/
def planned (planId : String) (now : Nat) (t : TaskRecord) : TaskRecord :=
  { t with activePlanId := some planId, revision := t.revision + 1, updatedAt := now }

/-- What `update_plan` makes of the row of a plan. -/
def replanned (revision : Int) (summary : String) (now : Nat) (r : TaskPlanRow) : TaskPlanRow :=
  { r with revision := revision, summary := summary, updatedAt := now }

/-- `update_plan`. -/
def updatePlan (taskId : String) (expectedRevision : Int) (summary : String)
    (steps : List (Option PlanStepInput)) (planId : String) (stepId : Nat → String) (now : Nat) :
    Except TaskError TaskDb := do
  let normalized ← normalizePlanSteps steps
  let summaryText := boundedText summary 4000
  match db.getTask taskId with
  | none => .error (.taskNotFound taskId)
  | some task => match task.activePlanId with
    | none =>
        if expectedRevision ≠ 0 then .error (.planRevisionOfTask taskId expectedRevision)
        else
          let db ← db.insertPlan ⟨planId, taskId, 1, summaryText, now, now⟩
          let db ← db.writeTasks (updateWhere (·.taskId = taskId) (planned planId now) db.tasks)
          db.insertSteps (stepRows planId stepId now normalized)
    | some active => match db.plans.find? (·.planId = active) with
      | none => .error (.missingPlan taskId active)
      | some plan =>
          if plan.revision ≠ expectedRevision then
            .error (.planRevision active expectedRevision plan.revision)
          else
            let db := { db with
              plans := updateWhere (·.planId = active)
                (replanned (plan.revision + 1) summaryText now) db.plans
              steps := db.steps.filter (·.planId ≠ active) }
            db.insertSteps (stepRows active stepId now normalized)

/-- The status a checkpoint leaves its task in. -/
def checkpointStatus : CheckpointDisposition → TaskStatus
  | .continue => .running
  | .waitEvent => .waitingEvent
  | .yield => .yielded
  | .complete => .waitingEvent

/-- `json.dumps` of an argument that may be absent; the inner `none` is
one it raises on. -/
def dumpArgument {α : Type} : Option (Option α) → Except TaskError (Option α)
  | none => .ok none
  | some none => .error .notSerializable
  | some (some value) => .ok (some value)

/-- What `create_checkpoint` makes of the row. -/
def checkpointed (checkpointId : String) (disposition : CheckpointDisposition) (now : Nat)
    (t : TaskRecord) : TaskRecord :=
  { t with
    latestCheckpointId := some checkpointId
    status := checkpointStatus disposition
    revision := t.revision + 1
    updatedAt := now }

/-- `create_checkpoint`. -/
def createCheckpoint (taskId : String) (expectedTaskRevision : Int)
    (disposition : CheckpointDisposition) (summary nextStep : String) (evidence waitFor : List String)
    (bodyFingerprint : Option (Option JsonObject)) (continuation : Option (Option ContinuationTerms))
    (checkpointId : String) (now : Nat) : Except TaskError TaskDb := do
  let db ← db.updateTaskAt taskId expectedTaskRevision (checkpointed checkpointId disposition now)
  let summary ← requireText "summary" summary 4000
  let fingerprint ← dumpArgument bodyFingerprint
  let contract ← dumpArgument continuation
  let checkpoint : TaskCheckpointRow := {
    checkpointId := checkpointId
    taskId := taskId
    revision := expectedTaskRevision + 1
    disposition := disposition
    summary := summary
    nextStep := boundedText nextStep 2000
    evidence := boundedTextList evidence 32 1000
    waitFor := boundedTextList waitFor 16 500
    bodyFingerprint := fingerprint
    continuation := contract
    createdAt := now }
  if Keyed (·.checkpointId) (db.checkpoints ++ [checkpoint]) then
    return { db with checkpoints := db.checkpoints ++ [checkpoint] }
  else throw .integrity

end Transactions

end TaskDb

end MineBot
