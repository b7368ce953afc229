import Mathlib
import MineBot.RecoveryAdmission
import MineBot.Table
import MineBot.Text
import MineBot.IntOrder

/-!
# The durable work-intent ledger

The `RuntimeStateStore` methods over `work_intents`. Each runs in one
transaction: it commits with a result or raises and rolls back, so a
method is a function that yields a result and the next state or an error
alone. Clock readings and fresh ids come in as arguments. Where the source
reads a row back that it has just written, the method yields the row as
written.
-/

namespace MineBot

open Table
open scoped IntOrder

/-- What the ledger raises. -/
inductive StoreError where
  /-- `RuntimeStateConflict`: work intent insert failed: ... -/
  | insertFailed
  /-- `sqlite3.IntegrityError` -/
  | integrity
  /-- `ValueError`: ... must not be empty -/
  | emptyText (field : String)
  /-- `OverflowError`: Python int too large to convert to SQLite INTEGER -/
  | integerTooLarge
  /-- `RuntimeStateConflict`: work intent lease race -/
  | leaseRace
  /-- `RuntimeStateConflict`: budget owner binding requires the current
  live lease -/
  | bindingRequiresLease
  /-- `ValueError`: admission evidence cursor must be non-negative -/
  | negativeCursor
  /-- `RuntimeStateConflict`: work intent admission is already bound -/
  | alreadyBound
  /-- `RuntimeStateConflict`: recovery accounting requires the current
  lease token -/
  | requiresLeaseToken
  /-- `RuntimeStateConflict`: recovery reconciliation task changed -/
  | reconciliationTaskChanged
  | recovery (e : RecoveryError)
  /-- `TypeError`: object is not iterable -/
  | notIterable
  /-- `ValueError`: invalid terminal work intent state: ... -/
  | invalidTerminalState (state : WorkIntentState)
  /-- `RuntimeStateConflict`: work intent revision conflict: ... -/
  | revisionConflict (intentId : String) (expected : Int)
  /-- `RuntimeStateConflict`: leased work intent abandonment race -/
  | abandonmentRace
  | assertion
deriving DecidableEq

/-- SQLite holds 64-bit integers. -/
def fitsInt64 (n : Int) : Bool := -2 ^ 63 ≤ n && n < 2 ^ 63

namespace WorkIntentRow

/-! ## Row updates -/

/-- The requeue of an expired lease. -/
def requeue (r : WorkIntentRow) : WorkIntentRow :=
  { r with
    state := .queued, leaseOwner := none, leaseExpiresAt := none, leasedAt := none
    revision := r.revision + 1 }

def lease (owner : String) (expiresAt now : Nat) (r : WorkIntentRow) : WorkIntentRow :=
  { r with
    state := .leased, revision := r.revision + 1
    leaseOwner := some owner, leaseExpiresAt := some expiresAt, leasedAt := some now
    attemptCount := r.attemptCount + 1 }

def setPayload (payload : JsonObject) (r : WorkIntentRow) : WorkIntentRow :=
  { r with payload := payload }

def finish (state : WorkIntentState) (now : Nat) (error : Option JsonObject)
    (r : WorkIntentRow) : WorkIntentRow :=
  { r with
    state := state, revision := r.revision + 1, completedAt := some now
    leaseOwner := none, leaseExpiresAt := none, error := error }

def supersede (now : Nat) (reason : String) (r : WorkIntentRow) : WorkIntentRow :=
  { r with
    state := .superseded, revision := r.revision + 1, completedAt := some now
    error := some [("reason", .str reason)] }

/-- `json_set(error_json, '$.reconciled_by', by)`. -/
def markReconciled (by_ : String) (r : WorkIntentRow) : WorkIntentRow :=
  { r with error := r.error.map fun e => e.set "reconciled_by" (.str by_) }

/-! ## Conditions -/

/-- `lease_expires_at IS NOT NULL AND lease_expires_at <= now`. -/
def expired (now : Nat) (r : WorkIntentRow) : Bool :=
  match r.leaseExpiresAt with
  | some t => t ≤ now
  | none => false

/-- `lease_expires_at > now`. -/
def live (now : Nat) (r : WorkIntentRow) : Bool :=
  match r.leaseExpiresAt with
  | some t => now < t
  | none => false

/-- `? IS NULL OR kind = ?`. -/
def ofKind (kind : Option WorkIntentKind) (r : WorkIntentRow) : Bool :=
  match kind with
  | some k => r.kind = k
  | none => true

/-- `json_extract(error_json, '$.reason') = reason AND
json_extract(error_json, '$.reconciled_by') IS NULL` on a failed row. -/
def orphaned (reason : String) (r : WorkIntentRow) : Bool :=
  r.state = .failed && match r.error with
    | some e => e.get? "reason" = some (.str reason)
        && (e.get? "reconciled_by" = none || e.get? "reconciled_by" = some .null)
    | none => false

/-- `ORDER BY priority DESC, created_at ASC, intent_id ASC`. -/
def serviceKey (r : WorkIntentRow) : ℤ ×ₗ ℕ ×ₗ String :=
  toLex (-r.priority, toLex (r.createdAt, r.intentId))

end WorkIntentRow

namespace RuntimeState

variable (s : RuntimeState) (scope : RuntimeScope)

/-! ## Enqueueing -/

def getWorkIntent (intentId : String) : Option WorkIntentRow :=
  s.workIntents.find? fun r => r.intentId = intentId

/-- `get_work_intent_by_dedupe`. The unique index leaves at most one. -/
def getWorkIntentByDedupe (dedupeKey : String) : Option WorkIntentRow :=
  s.workIntents.find? fun r => r.scopeKey = scope.key ∧ r.dedupeKey = some dedupeKey

/-- The arguments of an insert. -/
structure WorkIntentDraft where
  kind : WorkIntentKind
  source : String
  priority : Int
  payload : JsonObject
  dedupeKey : Option String
  taskId : Option String
  generation : Option Int

/-- The row of an insert. -/
def draftRow (intentId : String) (d : WorkIntentDraft) (availableAt now : Nat) :
    WorkIntentRow where
  intentId := intentId
  scopeKey := scope.key
  revision := 1
  kind := d.kind
  source := d.source
  priority := d.priority
  payload := d.payload
  dedupeKey := d.dedupeKey
  taskId := d.taskId
  generation := d.generation
  state := .queued
  availableAt := availableAt
  createdAt := now
  leaseOwner := none
  leaseExpiresAt := none
  attemptCount := 0
  leasedAt := none
  completedAt := none
  error := none

/-- The constraints of the table: primary key, live dedupe key, task. -/
def insertable (r : WorkIntentRow) : Bool :=
  s.workIntents.all (fun r' => r'.intentId ≠ r.intentId)
    && (match r.dedupeKey with
      | some _ => s.workIntents.all fun r' =>
          ¬ (r'.scopeKey = r.scopeKey ∧ r'.dedupeKey = r.dedupeKey)
      | none => true)
    && (match r.taskId with
      | some taskId => s.tasks.any fun t => t.taskId = taskId
      | none => true)

def insert (r : WorkIntentRow) : RuntimeState :=
  { s with workIntents := s.workIntents ++ [r] }

/-- `_bounded_text(dedupe_key or "", max_length=500) or None`. -/
def normalizedDedupe (dedupeKey : Option String) : Option String :=
  let clean := boundedText (dedupeKey.getD "") 500
  if clean = "" then none else some clean

/-- `enqueue_work_intent`. -/
def enqueueWorkIntent (d : WorkIntentDraft) (availableAt : Option Nat) (intentId : String)
    (now : Nat) : Except StoreError (WorkIntentRow × RuntimeState) :=
  let dedupeKey := normalizedDedupe d.dedupeKey
  match requiredText d.source 128 with
  | none => .error (.emptyText "source")
  | some source =>
      if !fitsInt64 d.priority || !(d.generation.map fitsInt64).getD true then
        .error .integerTooLarge
      else
        let row := draftRow scope intentId
          { d with source := source, dedupeKey := dedupeKey }
          (availableAt.getD (utcNow now)) (utcNow now)
        if s.insertable row then .ok (row, s.insert row)
        else match dedupeKey.bind (s.getWorkIntentByDedupe scope) with
        | some existing => .ok (existing, s)
        | none => .error .insertFailed

/-- The checkpoint `issue_checkpoint_continuation` may continue. -/
def continuable (checkpointId : String) (checkpointRevision : Int) (taskId : String)
    (generation : Int) : Bool :=
  match s.checkpoints.find? fun c => c.checkpointId = checkpointId ∧ c.taskId = taskId,
      s.tasks.find? fun t => t.taskId = taskId ∧ t.scopeKey = scope.key with
  | some c, some t =>
      c.revision = checkpointRevision && t.latestCheckpointId.getD "" = checkpointId
        && c.disposition = .continue && t.status = .running
        && (match c.continuation with
          | some contract => contract.generation = generation
          | none => false)
  | _, _ => false

/-- `issue_checkpoint_continuation`. -/
def issueCheckpointContinuation (checkpointId : String) (checkpointRevision : Int)
    (taskId : String) (generation : Int) (kind : WorkIntentKind) (source : String)
    (priority : Int) (payload : JsonObject) (dedupeKey : String) (intentId : String)
    (now : Nat) : Except StoreError (Option WorkIntentRow × RuntimeState) :=
  match requiredText dedupeKey 500 with
  | none => .error (.emptyText "dedupe_key")
  | some dedupe =>
      if !s.continuable scope checkpointId checkpointRevision taskId generation then
        .ok (none, s)
      else match s.getWorkIntentByDedupe scope dedupe with
      | some existing => .ok (some existing, s)
      | none =>
          match requiredText source 128 with
          | none => .error (.emptyText "source")
          | some source =>
              if !fitsInt64 priority || !fitsInt64 generation then .error .integerTooLarge
              else
                let row := draftRow scope intentId
                  ⟨kind, source, priority, payload, some dedupe, some taskId, some generation⟩
                  (utcNow now) (utcNow now)
                if s.insertable row then .ok (some row, s.insert row) else .error .integrity

/-! ## Reading -/

/-- `list_queued_work_intents`. -/
def listQueuedWorkIntents (kind : Option WorkIntentKind) : List WorkIntentRow :=
  (s.workIntents.filter fun r =>
      r.scopeKey = scope.key ∧ r.state = .queued ∧ r.ofKind kind).insertionSort
    fun a b => a.serviceKey ≤ b.serviceKey

/-- `queued_work_intent_count`. -/
def queuedWorkIntentCount : Nat :=
  s.workIntents.countP fun r => r.scopeKey = scope.key ∧ r.state = .queued

/-- `work_intent_count`. -/
def workIntentCount (kind : WorkIntentKind) (taskId : String) : Nat :=
  s.workIntents.countP fun r =>
    r.scopeKey = scope.key ∧ r.kind = kind ∧ r.taskId = some taskId

/-! ## Leasing -/

/-- The rows after the requeue of expired leases. -/
def requeueExpired (kind : Option WorkIntentKind) (now : Nat) : List WorkIntentRow :=
  updateWhere (fun r => r.scopeKey = scope.key ∧ r.state = .leased ∧ r.expired now
    ∧ r.ofKind kind) (·.requeue) s.workIntents

/-- A row `lease_next_work_intent` may hand out. -/
def ready (kind : Option WorkIntentKind) (now : Nat) (r : WorkIntentRow) : Bool :=
  r.scopeKey = scope.key ∧ r.state = .queued ∧ r.availableAt ≤ now ∧ r.ofKind kind

/-- `UPDATE ... WHERE intent_id = ? AND revision = ? AND state = 'queued'`,
for the row that was selected. -/
def selects (row r : WorkIntentRow) : Bool :=
  r.intentId = row.intentId ∧ r.revision = row.revision ∧ r.state = .queued

/-- `lease_next_work_intent`, with its two clock readings. -/
def leaseNextWorkIntent (leaseOwner : String) (leaseMicros : Nat)
    (kind : Option WorkIntentKind) (now later : Nat) :
    Except StoreError (Option WorkIntentRow × RuntimeState) :=
  let expiresAt := utcAfter later leaseMicros
  let rows := s.requeueExpired scope kind (utcNow now)
  match (rows.filter (ready scope kind (utcNow now))).argmin (·.serviceKey) with
  | none => .ok (none, { s with workIntents := rows })
  | some row =>
      match requiredText leaseOwner 256 with
      | none => .error (.emptyText "lease_owner")
      | some owner =>
          if rows.countP (selects row) ≠ 1 then .error .leaseRace
          else .ok (some (row.lease owner expiresAt (utcNow now)), { s with
            workIntents :=
              updateWhere (selects row) (·.lease owner expiresAt (utcNow now)) rows })

/-! ## Orphans -/

/-- What `for orphan in payload.get("orphaned_intents") or []` visits.
Iterating a string or an object yields strings, which the loop skips. -/
def orphanEntries (payload : JsonObject) : Except StoreError (List Json) :=
  match payload.get? "orphaned_intents" with
  | some (.arr orphans) => .ok orphans
  | some (.int n) => if n = 0 then .ok [] else .error .notIterable
  | some (.float q) => if q = 0 then .ok [] else .error .notIterable
  | some (.bool true) => .error .notIterable
  | _ => .ok []

/-- The id an entry of `orphaned_intents` names. -/
def orphanId? : Json → Option String
  | .obj orphan => match Dict.get? orphan "intent_id" with
    | some (.str intentId) => some intentId
    | _ => none
  | _ => none

def restartReason : String := "process_restart_unknown_outcome"

/-- The updates of `_retire_reconciled_orphans`, one for each id. -/
def retireOrphans (row : WorkIntentRow) : List String → List WorkIntentRow → List WorkIntentRow
  | [], rows => rows
  | orphanId :: ids, rows =>
      retireOrphans row ids (updateWhere (fun r => r.intentId = orphanId
        ∧ r.scopeKey = row.scopeKey ∧ r.orphaned restartReason)
        (·.markReconciled row.intentId) rows)

/-- `_retire_reconciled_orphans`. -/
def retireReconciledOrphans (row : WorkIntentRow) (payload : JsonObject)
    (rows : List WorkIntentRow) : Except StoreError (List WorkIntentRow) :=
  if row.kind ≠ .recoveryReconcile ∨ row.source ≠ "startup_reconcile" then .ok rows
  else (orphanEntries payload).map fun orphans =>
    retireOrphans row (orphans.filterMap orphanId?) rows

/-! ## Operations with a lease token -/

/-- The row a token names: leased at this revision, by this owner. -/
def leasedRow (intentId : String) (revision : Int) (leaseOwner : String)
    (requireLive : Bool) (now : Nat) : Option WorkIntentRow :=
  s.workIntents.find? fun r => r.intentId = intentId ∧ r.scopeKey = scope.key
    ∧ r.revision = revision ∧ r.state = .leased ∧ r.leaseOwner = some leaseOwner
    ∧ (requireLive = false ∨ r.live (utcNow now))

/-- `UPDATE work_intents SET payload_json = ? WHERE intent_id = ?`. -/
def writePayload (intentId : String) (payload : JsonObject) (rows : List WorkIntentRow) :
    List WorkIntentRow :=
  updateWhere (fun r => r.intentId = intentId) (·.setPayload payload) rows

/-- The admission metadata of a binding. -/
def admissionEntries (checkpointId : Option String) (evidenceCursor : Int)
    (taskId : Option String) : JsonObject :=
  [("budget_checkpoint_id", Json.ofString? checkpointId),
    ("admission_evidence_cursor", .int evidenceCursor),
    ("admission_task_id", Json.ofString? taskId)]

/-- A key of `admission` holds another value already. -/
def bindsOtherwise (payload admission : JsonObject) : Bool :=
  admission.any fun (key, value) => match payload.get? key with
    | some bound => !bound.pyEq value
    | none => false

/-- `bind_work_intent_admission`. -/
def bindWorkIntentAdmission (intentId : String) (expectedRevision : Int)
    (leaseOwner : String) (checkpointId : Option String) (evidenceCursor : Int)
    (taskId : Option String) (now : Nat) : Except StoreError (WorkIntentRow × RuntimeState) :=
  match s.leasedRow scope intentId expectedRevision leaseOwner true now with
  | none => .error .bindingRequiresLease
  | some row =>
      let admission := admissionEntries checkpointId evidenceCursor taskId
      if evidenceCursor < 0 then .error .negativeCursor
      else if bindsOtherwise row.payload admission then .error .alreadyBound
      else
        let payload := row.payload.update admission
        match retireReconciledOrphans row payload
            (writePayload intentId payload s.workIntents) with
        | .error e => .error e
        | .ok rows => .ok (row.setPayload payload, { s with workIntents := rows })

/-- The whole ledger of a scope. -/
def history : List HistoryRecord :=
  (s.workIntents.filter fun r => r.scopeKey = scope.key).map (·.toRecord)

/-- `reserve_recovery_attempt`. -/
def reserveRecoveryAttempt (intentId : String) (expectedRevision : Int)
    (leaseOwner : String) (maxAttempts : Int) (now : Nat) :
    Except StoreError (Option WorkIntentRow × RuntimeState) :=
  match s.leasedRow scope intentId expectedRevision leaseOwner true now with
  | none => .error .requiresLeaseToken
  | some row =>
      match nextRecoveryAdmission row.payload (s.history scope) intentId maxAttempts with
      | .error e => .error (.recovery e)
      | .ok none => .ok (none, { s with
          workIntents := writePayload intentId
            (row.payload.set "recovery_admission_denied" (.bool true)) s.workIntents })
      | .ok (some admission) =>
          let payload := row.payload.set "recovery_admission" admission.toJson
          .ok (some (row.setPayload payload),
            { s with workIntents := writePayload intentId payload s.workIntents })

/-- `confirm_recovery`. -/
def confirmRecovery (intentId : String) (expectedRevision : Int) (leaseOwner : String)
    (now : Nat) : Except StoreError (WorkIntentRow × RuntimeState) :=
  -- recording an owned terminal result needs no live lease
  match s.leasedRow scope intentId expectedRevision leaseOwner false now with
  | none => .error .requiresLeaseToken
  | some row =>
      match confirmedRecoveryPayload row.payload with
      | .error e => .error (.recovery e)
      | .ok payload => .ok (row.setPayload payload,
          { s with workIntents := writePayload intentId payload s.workIntents })

/-- The mark `reconcile_recovery` leaves on the current intent. -/
def reconciledMark (payload : JsonObject) (target : Option String) : JsonObject :=
  payload.set "recovery_reconciled_intent_id" (Json.ofString? target)

/-- The settlement of another intent, if there is one. -/
def writeSettlement (settlement : Option (String × JsonObject)) (rows : List WorkIntentRow) :
    List WorkIntentRow :=
  match settlement with
  | some (target, payload) => writePayload target payload rows
  | none => rows

/-- `reconcile_recovery`. -/
def reconcileRecovery (intentId : String) (expectedRevision : Int) (leaseOwner : String)
    (state : BodyState) (now : Nat) : Except StoreError (Unit × RuntimeState) :=
  match s.leasedRow scope intentId expectedRevision leaseOwner true now with
  | none => .error .requiresLeaseToken
  | some row =>
      match s.foregroundTask scope with
      | none => .error .reconciliationTaskChanged
      | some task =>
          if row.taskId ≠ some task.taskId then .error .reconciliationTaskChanged
          else if state.bot ≠ scope.botId then .ok ((), s)
          else match reconciledRecoveryPayload row.toRecord (s.history scope) state with
          | .error e => .error (.recovery e)
          | .ok settlement =>
              let rows := writeSettlement settlement s.workIntents
              let rows := if row.payload.has "recovery_reconciled_intent_id" then rows
                else writePayload intentId
                  (reconciledMark row.payload (settlement.map Prod.fst)) rows
              .ok ((), { s with workIntents := rows })

/-! ## Ending work -/

/-- `finish_work_intent`. -/
def finishWorkIntent (intentId : String) (expectedRevision : Int) (state : WorkIntentState)
    (error : Option JsonObject) (now : Nat) : Except StoreError (WorkIntentRow × RuntimeState) :=
  if !state.terminal then .error (.invalidTerminalState state)
  else
    let token : WorkIntentRow → Bool := fun r =>
      r.intentId = intentId ∧ r.revision = expectedRevision ∧ r.state = .leased
    match s.workIntents.find? token with
    | none => .error (.revisionConflict intentId expectedRevision)
    | some row =>
        let finished := row.finish state (utcNow now) error
        let rows := updateWhere token (·.finish state (utcNow now) error) s.workIntents
        if state = .completed then
          match retireReconciledOrphans finished finished.payload rows with
          | .error e => .error e
          | .ok rows => .ok (finished, { s with workIntents := rows })
        else .ok (finished, { s with workIntents := rows })

/-- `supersede_queued_work_intents`. -/
def supersedeQueuedWorkIntents (kinds : List WorkIntentKind) (reason : String) (now : Nat) :
    Nat × RuntimeState :=
  let hit : WorkIntentRow → Bool := fun r =>
    r.scopeKey = scope.key ∧ r.state = .queued ∧ r.kind ∈ kinds
  (s.workIntents.countP hit,
    { s with workIntents := updateWhere hit (·.supersede (utcNow now) reason) s.workIntents })

/-- A row `abandon_leased_work_intents` reports. -/
def abandonable (reason : String) (r : WorkIntentRow) : Bool :=
  r.scopeKey = scope.key ∧ (r.state = .leased ∨ r.orphaned reason)

/-- `ORDER BY leased_at ASC, created_at ASC`; `NULL` comes first. -/
def abandonOrder (a b : WorkIntentRow) : Bool :=
  match a.leasedAt, b.leasedAt with
  | none, none => a.createdAt ≤ b.createdAt
  | none, some _ => true
  | some _, none => false
  | some x, some y => x < y || x = y && a.createdAt ≤ b.createdAt

/-- `abandon_leased_work_intents`: the rows as they were found. -/
def abandonLeasedWorkIntents (reason : String) (now : Nat) :
    Except StoreError (List WorkIntentRow × RuntimeState) :=
  let rows := (s.workIntents.filter (abandonable scope reason)).insertionSort
    fun a b => abandonOrder a b
  if rows.isEmpty then .ok ([], s)
  else
    let leased : WorkIntentRow → Bool := fun r => r.scopeKey = scope.key ∧ r.state = .leased
    if s.workIntents.countP leased ≠ rows.countP fun r => r.state = .leased then
      .error .abandonmentRace
    else .ok (rows, { s with
      workIntents := updateWhere leased
        (·.finish .failed (utcNow now) (some [("reason", .str reason)])) s.workIntents })

end RuntimeState

end MineBot
