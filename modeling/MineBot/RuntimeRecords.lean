import MineBot.Json

/-!
# The records of the runtime database

The rows of `RuntimeStateStore` that the work-intent ledger and the
continuation budget read and write, and the enumerations they hold. A
JSON column holds the decoded value. A clock reading is in microseconds,
a stored timestamp in the milliseconds that `isoformat` keeps; texts of
one width compare as these numbers do.
-/

namespace MineBot

/-- `RuntimeScope`: its `key` and the bot it belongs to. -/
structure RuntimeScope where
  key : String
  botId : String
deriving DecidableEq

/-- `_utc_now` at clock reading `micros`. -/
def utcNow (micros : Nat) : Nat := micros / 1000

/-- `_utc_after`. -/
def utcAfter (micros duration : Nat) : Nat := utcNow (micros + duration)

/-! ## Work intents -/

inductive WorkIntentKind where
  | start
  | pause
  | «continue»
  | cancel
  | replaceGoal
  | message
  | quit
  | bodyEvent
  | reflexFact
  | recoveryReconcile
  | completionReview
  | taskBoundary
  | taskContinue
  | maintenance
deriving DecidableEq, Repr

inductive WorkIntentState where
  | queued
  | leased
  | completed
  | superseded
  | failed
deriving DecidableEq, Repr

/-- `state in {"completed", "superseded", "failed"}`. -/
def WorkIntentState.terminal : WorkIntentState → Bool
  | .completed | .superseded | .failed => true
  | .queued | .leased => false

/-- A row of `work_intents`. -/
structure WorkIntentRow where
  intentId : String
  scopeKey : String
  revision : Int
  kind : WorkIntentKind
  source : String
  priority : Int
  payload : JsonObject
  dedupeKey : Option String
  taskId : Option String
  generation : Option Int
  state : WorkIntentState
  availableAt : Nat
  createdAt : Nat
  leaseOwner : Option String
  leaseExpiresAt : Option Nat
  attemptCount : Nat
  leasedAt : Option Nat
  completedAt : Option Nat
  error : Option JsonObject
deriving DecidableEq

/-! ## Tasks and checkpoints -/

inductive TaskStatus where
  | queued
  | running
  | waitingEvent
  | paused
  | yielded
  | completed
  | cancelled
  | failed
deriving DecidableEq, Repr

/-- The statuses of a foreground task. -/
def TaskStatus.foreground : TaskStatus → Bool
  | .running | .waitingEvent | .paused | .yielded => true
  | _ => false

structure TaskRow where
  taskId : String
  scopeKey : String
  status : TaskStatus
  latestCheckpointId : Option String
  updatedAt : Nat
deriving DecidableEq

inductive CheckpointDisposition where
  | «continue»
  | waitEvent
  | yield
  | complete
deriving DecidableEq, Repr

/-- `ContinuationContract`: what the ledger and the budget read of it. -/
structure ContinuationContract where
  boundedEpochBudget : Int
  approachKey : String
  generation : Int
deriving DecidableEq

/-- A row of `task_checkpoints`, its `continuation_json` decoded. -/
structure CheckpointRow where
  checkpointId : String
  taskId : String
  revision : Int
  disposition : CheckpointDisposition
  continuation : Option ContinuationContract
deriving DecidableEq

/-! ## Continuation budget -/

/-- A row of `continuation_approaches`. -/
structure ApproachRow where
  scopeKey : String
  taskId : String
  approachKey : String
  budgetLimit : Int
  consumedEpochs : Int
deriving DecidableEq

/-- A row of `continuation_settlements`. -/
structure SettlementRow where
  checkpointId : String
  scopeKey : String
  taskId : String
  approachKey : String
  consumedEpochs : Int
deriving DecidableEq

/-- A row of `continuation_epoch_reservations`. -/
structure ReservationRow where
  epochId : String
  scopeKey : String
  checkpointId : String
deriving DecidableEq

/-! ## The database -/

structure RuntimeState where
  tasks : List TaskRow
  checkpoints : List CheckpointRow
  workIntents : List WorkIntentRow
  approaches : List ApproachRow
  settlements : List SettlementRow
  reservations : List ReservationRow

def RuntimeState.empty : RuntimeState := ⟨[], [], [], [], [], []⟩

/-- `get_foreground_task`: the foreground task that was updated last, the
highest id among those. -/
def RuntimeState.foregroundTask (s : RuntimeState) (scope : RuntimeScope) : Option TaskRow :=
  (s.tasks.filter fun t => t.scopeKey = scope.key ∧ t.status.foreground).foldl
    (fun best t => match best with
      | none => some t
      | some b =>
          if b.updatedAt < t.updatedAt ∨ b.updatedAt = t.updatedAt ∧ b.taskId < t.taskId
          then some t else some b) none

/-! ## Body state -/

/-- `BodyState`, as far as a recovery reads it. A health that is not
finite is `none`. -/
structure BodyState where
  bot : String
  complete : Bool
  missing : Bool
  health : Option Rat
  bodyOwner : Option String
  pendingActionCount : Option Int
  hazardUnresolved : Option JsonObject

end MineBot
