import MineBot.History
import MineBot.WorkIntents
import MineBot.IntOrder

/-!
# The work-admission queue

`work_queue.py`: the queue interface, its process-local implementation
and the one over the durable ledger. An intent that is handed back to a
queue is the value the queue returned, with the revision it had then; the
queue goes by its id and revision. The wake-up signal and its version
counter only pace the scheduler's waiting and are left out.
-/

namespace MineBot

open Table
open scoped IntOrder

/-- `WORK_INTENT_PRIORITY`. -/
def WorkIntentKind.workIntentPriority : WorkIntentKind → Int
  | .quit => 100
  | .cancel => 95
  | .replaceGoal => 90
  | .pause => 85
  | .recoveryReconcile => 80
  | .completionReview => 80
  | .bodyEvent => 77
  | .message => 76
  | .reflexFact => 75
  | .«continue» => 70
  | .start => 65
  | .taskBoundary => 55
  | .taskContinue => 50
  | .maintenance => 10

structure WorkIntent where
  intentId : String
  revision : Int
  kind : WorkIntentKind
  source : String
  priority : Int
  payload : JsonObject
  state : WorkIntentState
  dedupeKey : Option String
  taskId : Option String
  generation : Option Int
  attemptCount : Nat
deriving DecidableEq

/-- `record.__dict__`, as the recovery accounting reads it. -/
def WorkIntent.toRecord (i : WorkIntent) : HistoryRecord :=
  ⟨i.intentId, i.kind, i.source, i.taskId, i.state, i.attemptCount, i.payload⟩

/-- `kind is None or record.kind is kind`. -/
def WorkIntent.ofKind (kind : Option WorkIntentKind) (i : WorkIntent) : Bool :=
  match kind with
  | some k => i.kind = k
  | none => true

/-! ## The interface -/

/-- A call of `WorkIntentQueue`; `ι` is how the caller names an intent it
was given. -/
inductive QueueCall (ι : Type) where
  | enqueue (kind : WorkIntentKind) (source : String) (payload : JsonObject)
      (dedupeKey taskId : Option String) (generation : Option Int)
  | leaseNext (kind : Option WorkIntentKind)
  | bindAdmission (intent : ι) (checkpointId : Option String) (evidenceCursor : Int)
      (taskId : Option String)
  | reserveRecoveryAttempt (intent : ι) (maxAttempts : Int)
  | confirmRecovery (intent : ι)
  | reconcileRecovery (intent : ι) (state : BodyState)
  | complete (intent : ι)
  | fail (intent : ι) (error : JsonObject)
  | supersedeActive (intent : ι) (reason : String)
  | supersede (kinds : List WorkIntentKind) (reason : String)
  | pendingCount
  | countForTask (kind : WorkIntentKind) (taskId : String)
  | queuedIntents (kind : Option WorkIntentKind)
  | getByDedupe (dedupeKey : String)
  | issueTaskContinuation (checkpointId : String) (checkpointRevision : Int)
      (taskId : String) (payload : JsonObject) (dedupeKey : String) (generation : Int)

inductive QueueResult where
  | intent (i : WorkIntent)
  | intent? (i : Option WorkIntent)
  | intents (is : List WorkIntent)
  | count (n : Nat)
  | done
deriving DecidableEq

/-- What a queue call yields beside its result: the queue after it. A call
that raises leaves the queue as it was. -/
def settle {ε α σ : Type} (s : σ) (f : α → QueueResult) :
    Except ε (α × σ) → Except ε QueueResult × σ
  | .ok (a, s') => (.ok (f a), s')
  | .error e => (.error e, s)

/-! ## The process-local queue -/

/-- What `MemoryWorkIntentQueue` raises. -/
inductive QueueError where
  /-- `KeyError` -/
  | unknownIntent
  /-- `RuntimeError`: budget owner binding requires the current lease -/
  | bindingRequiresLease
  /-- `ValueError`: admission evidence cursor must be non-negative -/
  | negativeCursor
  /-- `RuntimeError`: work intent admission is already bound -/
  | alreadyBound
  /-- `RuntimeStateConflict`: recovery accounting requires the current lease -/
  | requiresCurrentLease
  | recovery (e : RecoveryError)
  /-- `RuntimeError`: work intent revision conflict: ... -/
  | revisionConflict (intentId : String)
deriving DecidableEq

/-- `MemoryWorkIntentQueue`: `_records` in the order of `_order`, which is
the order they arrived in. -/
structure MemoryWorkIntentQueue where
  records : List WorkIntent

namespace MemoryWorkIntentQueue

variable (q : MemoryWorkIntentQueue)

def empty : MemoryWorkIntentQueue := ⟨[]⟩

/-- `self._records[intent_id]`. -/
def get (intentId : String) : Except QueueError WorkIntent :=
  match q.records.find? fun r => r.intentId = intentId with
  | some record => .ok record
  | none => .error .unknownIntent

/-- `self._records[record.intent_id] = record`, for an id that is there. -/
def put (record : WorkIntent) : MemoryWorkIntentQueue :=
  ⟨updateWhere (fun r => r.intentId = record.intentId) (fun _ => record) q.records⟩

def enqueue (kind : WorkIntentKind) (source : String) (payload : JsonObject)
    (dedupeKey taskId : Option String) (generation : Option Int) (intentId : String) :
    WorkIntent × MemoryWorkIntentQueue :=
  match dedupeKey.bind fun key => q.records.find? fun r => r.dedupeKey = some key with
  | some record => (record, q)
  | none =>
      let intent : WorkIntent := {
        intentId := intentId
        revision := 1
        kind := kind
        source := source
        priority := kind.workIntentPriority
        payload := payload
        state := .queued
        dedupeKey := dedupeKey
        taskId := taskId
        generation := generation
        attemptCount := 0 }
      (intent, ⟨q.records ++ [intent]⟩)

/-- `queued_intents`. -/
def queuedIntents (kind : Option WorkIntentKind) : List WorkIntent :=
  q.records.filter fun r => r.state = .queued ∧ r.ofKind kind

/-- `lease_next`. Of equal priorities `argmin` takes the first. -/
def leaseNext (kind : Option WorkIntentKind) : Option WorkIntent × MemoryWorkIntentQueue :=
  match (q.queuedIntents kind).argmin (-·.priority) with
  | none => (none, q)
  | some selected =>
      let leased := { selected with
        revision := selected.revision + 1, state := .leased
        attemptCount := selected.attemptCount + 1 }
      (some leased, q.put leased)

/-- The current record of an intent, if the intent still holds its lease. -/
def current (intent : WorkIntent) (refused : QueueError) : Except QueueError WorkIntent := do
  let current ← q.get intent.intentId
  if current.revision ≠ intent.revision ∨ current.state ≠ .leased then throw refused
  else return current

/-- `_finish`. -/
def finish (intent : WorkIntent) (state : WorkIntentState) :
    Except QueueError (WorkIntent × MemoryWorkIntentQueue) := do
  let current ← q.current intent (.revisionConflict intent.intentId)
  let finished := { current with revision := current.revision + 1, state := state }
  return (finished, q.put finished)

def supersede (kinds : List WorkIntentKind) : Nat × MemoryWorkIntentQueue :=
  let hit : WorkIntent → Bool := fun r => r.state = .queued ∧ r.kind ∈ kinds
  (q.records.countP hit, ⟨updateWhere hit
    (fun r => { r with revision := r.revision + 1, state := .superseded }) q.records⟩)

def pendingCount : Nat := q.records.countP fun r => r.state = .queued

def countForTask (kind : WorkIntentKind) (taskId : String) : Nat :=
  q.records.countP fun r => r.kind = kind ∧ r.taskId = some taskId

def getByDedupe (dedupeKey : String) : Option WorkIntent :=
  q.records.find? fun r => r.dedupeKey = some dedupeKey

def bindAdmission (intent : WorkIntent) (checkpointId : Option String) (evidenceCursor : Int)
    (taskId : Option String) : Except QueueError (WorkIntent × MemoryWorkIntentQueue) := do
  let current ← q.current intent .bindingRequiresLease
  let admission := RuntimeState.admissionEntries checkpointId evidenceCursor taskId
  if evidenceCursor < 0 then throw .negativeCursor
  else if RuntimeState.bindsOtherwise current.payload admission then throw .alreadyBound
  else
    let bound := { current with payload := current.payload.update admission }
    return (bound, q.put bound)

def history : List HistoryRecord := q.records.map (·.toRecord)

def reserveRecoveryAttempt (intent : WorkIntent) (maxAttempts : Int) :
    Except QueueError (Option WorkIntent × MemoryWorkIntentQueue) := do
  let current ← q.current intent .requiresCurrentLease
  match nextRecoveryAdmission current.payload q.history intent.intentId maxAttempts with
  | .error e => throw (.recovery e)
  | .ok none => return (none, q.put { current with
      payload := current.payload.set "recovery_admission_denied" (.bool true) })
  | .ok (some admission) =>
      let reserved := { current with
        payload := current.payload.set "recovery_admission" admission.toJson }
      return (some reserved, q.put reserved)

def confirmRecovery (intent : WorkIntent) :
    Except QueueError (WorkIntent × MemoryWorkIntentQueue) := do
  let current ← q.current intent .requiresCurrentLease
  match confirmedRecoveryPayload current.payload with
  | .error e => throw (.recovery e)
  | .ok payload =>
      let confirmed := { current with payload := payload }
      return (confirmed, q.put confirmed)

/-- The settlement of another intent, if there is one. -/
def putSettlement (settlement : Option (String × JsonObject)) : MemoryWorkIntentQueue :=
  match settlement with
  | some (target, payload) => ⟨updateWhere (fun r => r.intentId = target)
      (fun r => { r with payload := payload }) q.records⟩
  | none => q

def reconcileRecovery (intent : WorkIntent) (state : BodyState) :
    Except QueueError (Unit × MemoryWorkIntentQueue) := do
  let current ← q.current intent .requiresCurrentLease
  match reconciledRecoveryPayload current.toRecord q.history state with
  | .error e => throw (.recovery e)
  | .ok settlement =>
      let settled := q.putSettlement settlement
      if current.payload.has "recovery_reconciled_intent_id" then return ((), settled)
      else return ((), settled.put { current with
        payload := RuntimeState.reconciledMark current.payload (settlement.map Prod.fst) })

/-- A call, with the id a new intent would get. -/
def call (intentId : String) :
    QueueCall WorkIntent → Except QueueError QueueResult × MemoryWorkIntentQueue
  | .enqueue kind source payload dedupeKey taskId generation =>
      settle q .intent
        (.ok (q.enqueue kind source payload dedupeKey taskId generation intentId))
  | .leaseNext kind => settle q .intent? (.ok (q.leaseNext kind))
  | .bindAdmission intent checkpointId evidenceCursor taskId =>
      settle q .intent (q.bindAdmission intent checkpointId evidenceCursor taskId)
  | .reserveRecoveryAttempt intent maxAttempts =>
      settle q .intent? (q.reserveRecoveryAttempt intent maxAttempts)
  | .confirmRecovery intent => settle q .intent (q.confirmRecovery intent)
  | .reconcileRecovery intent state =>
      settle q (fun _ => .done) (q.reconcileRecovery intent state)
  | .complete intent => settle q .intent (q.finish intent .completed)
  | .fail intent _ => settle q .intent (q.finish intent .failed)
  | .supersedeActive intent _ => settle q .intent (q.finish intent .superseded)
  | .supersede kinds _ => settle q .count (.ok (q.supersede kinds))
  | .pendingCount => (.ok (.count q.pendingCount), q)
  | .countForTask kind taskId => (.ok (.count (q.countForTask kind taskId)), q)
  | .queuedIntents kind => (.ok (.intents (q.queuedIntents kind)), q)
  | .getByDedupe dedupeKey => (.ok (.intent? (q.getByDedupe dedupeKey)), q)
  | .issueTaskContinuation _ _ taskId payload dedupeKey generation =>
      settle q (fun i => .intent? (some i)) (.ok (q.enqueue .taskContinue
        "task_checkpoint_continue" payload (some dedupeKey) (some taskId) (some generation)
        intentId))

end MemoryWorkIntentQueue

/-! ## The queue over the ledger -/

/-- `_intent_from_row`. -/
def intentFromRow (r : WorkIntentRow) : WorkIntent where
  intentId := r.intentId
  revision := r.revision
  kind := r.kind
  source := r.source
  priority := r.priority
  payload := r.payload
  state := r.state
  dedupeKey := r.dedupeKey
  taskId := r.taskId
  generation := r.generation
  attemptCount := r.attemptCount

/-- `PersistentWorkIntentQueue`: its scope and its lease owner. -/
structure PersistentWorkIntentQueue where
  scope : RuntimeScope
  leaseOwner : String

namespace PersistentWorkIntentQueue

variable (q : PersistentWorkIntentQueue) (s : RuntimeState)

/-- The transactions of `__init__`: `orphaned_intents` and `stale_quits`. -/
def init (now later : Nat) : Except StoreError ((List WorkIntent × Nat) × RuntimeState) := do
  let (rows, s) ← s.abandonLeasedWorkIntents q.scope RuntimeState.restartReason now
  let (staleQuits, s) := s.supersedeQueuedWorkIntents q.scope [.quit] "earlier_process_quit" later
  return ((rows.map intentFromRow, staleQuits), s)

/-- The `lease_seconds` of `lease_next_work_intent`. -/
def leaseMicros : Nat := 60000000

/-- A call, with the id a new intent would get and two clock readings. -/
def call (intentId : String) (now later : Nat) :
    QueueCall WorkIntent → Except StoreError QueueResult × RuntimeState
  | .enqueue kind source payload dedupeKey taskId generation =>
      settle s (fun r => .intent (intentFromRow r)) (s.enqueueWorkIntent q.scope
        ⟨kind, source, kind.workIntentPriority, payload, dedupeKey, taskId, generation⟩ none
        intentId now)
  | .leaseNext kind =>
      settle s (fun r => .intent? (r.map intentFromRow))
        (s.leaseNextWorkIntent q.scope q.leaseOwner leaseMicros kind now later)
  | .bindAdmission intent checkpointId evidenceCursor taskId =>
      settle s (fun r => .intent (intentFromRow r)) (s.bindWorkIntentAdmission q.scope
        intent.intentId intent.revision q.leaseOwner checkpointId evidenceCursor taskId now)
  | .reserveRecoveryAttempt intent maxAttempts =>
      settle s (fun r => .intent? (r.map intentFromRow)) (s.reserveRecoveryAttempt q.scope
        intent.intentId intent.revision q.leaseOwner maxAttempts now)
  | .confirmRecovery intent =>
      settle s (fun r => .intent (intentFromRow r)) (s.confirmRecovery q.scope
        intent.intentId intent.revision q.leaseOwner now)
  | .reconcileRecovery intent state =>
      settle s (fun _ => .done) (s.reconcileRecovery q.scope
        intent.intentId intent.revision q.leaseOwner state now)
  | .complete intent =>
      settle s (fun r => .intent (intentFromRow r)) (s.finishWorkIntent
        intent.intentId intent.revision .completed none now)
  | .fail intent error =>
      settle s (fun r => .intent (intentFromRow r)) (s.finishWorkIntent
        intent.intentId intent.revision .failed (some error) now)
  | .supersedeActive intent reason =>
      settle s (fun r => .intent (intentFromRow r)) (s.finishWorkIntent
        intent.intentId intent.revision .superseded (some [("reason", .str reason)]) now)
  | .supersede kinds reason =>
      settle s .count (.ok (s.supersedeQueuedWorkIntents q.scope kinds reason now))
  | .pendingCount => (.ok (.count (s.queuedWorkIntentCount q.scope)), s)
  | .countForTask kind taskId => (.ok (.count (s.workIntentCount q.scope kind taskId)), s)
  | .queuedIntents kind =>
      (.ok (.intents ((s.listQueuedWorkIntents q.scope kind).map intentFromRow)), s)
  | .getByDedupe dedupeKey =>
      (.ok (.intent? ((s.getWorkIntentByDedupe q.scope dedupeKey).map intentFromRow)), s)
  | .issueTaskContinuation checkpointId checkpointRevision taskId payload dedupeKey
      generation =>
      settle s (fun r => .intent? (r.map intentFromRow)) (s.issueCheckpointContinuation
        q.scope checkpointId checkpointRevision taskId generation .taskContinue
        "task_checkpoint_continue" WorkIntentKind.taskContinue.workIntentPriority payload
        dedupeKey intentId now)

end PersistentWorkIntentQueue

end MineBot
