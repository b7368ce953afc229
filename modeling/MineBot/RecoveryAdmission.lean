import MineBot.IntOrder
import MineBot.RuntimeRecords

/-!
# Recovery-attempt accounting

`recovery_admission.py`: the number of the next recovery attempt is not
stored anywhere but computed from the payloads of the whole ledger. The
functions see a ledger record through the few fields both queues give
them.
-/

namespace MineBot

open scoped IntOrder

/-- A ledger record as the recovery accounting reads it. -/
structure HistoryRecord where
  intentId : String
  kind : WorkIntentKind
  source : String
  taskId : Option String
  state : WorkIntentState
  attemptCount : Nat
  payload : JsonObject
deriving DecidableEq

def WorkIntentRow.toRecord (r : WorkIntentRow) : HistoryRecord :=
  ⟨r.intentId, r.kind, r.source, r.taskId, r.state, r.attemptCount, r.payload⟩

/-- The refusals of the recovery accounting: `ValueError` for the first,
`RuntimeStateConflict` for the others. -/
inductive RecoveryError where
  /-- recovery attempt limit must be positive -/
  | limitNotPositive
  /-- invalid recovery admission -/
  | invalidAdmission
  /-- invalid recovery admission ... -/
  | invalidField (name : String)
  /-- invalid recovery admission state -/
  | invalidState
  /-- recovery requires bound work admission -/
  | requiresBoundAdmission
  /-- a reserved recovery invocation must not be replayed -/
  | mustNotBeReplayed
  /-- legacy recovery attempt has no durable reservation -/
  | legacyAttempt
  /-- duplicate recovery admission sequence -/
  | duplicateSequence
  /-- recovery reconciliation requires startup ownership -/
  | requiresStartupOwnership
  /-- recovery reconciliation requires the original task -/
  | requiresOriginalTask
  /-- recovery history has ambiguous task ownership -/
  | ambiguousOwnership
  /-- cannot reconcile a live recovery invocation -/
  | liveInvocation
deriving DecidableEq

/-- `key in d`. -/
def Dict.has {κ ν : Type*} [DecidableEq κ] (d : Dict κ ν) (k : κ) : Bool := (d.get? k).isSome

/-- A JSON string, or `None`. -/
def Json.ofString? : Option String → Json
  | some s => .str s
  | none => .null

/-! ## Admissions -/

structure RecoveryAdmission where
  episodeId : String
  sequence : Int
  attempt : Int
  limit : Int
  confirmed : Bool
deriving DecidableEq, Repr

def RecoveryAdmission.toJson (a : RecoveryAdmission) : Json :=
  .obj [("episode_id", .str a.episodeId), ("sequence", .int a.sequence),
    ("attempt", .int a.attempt), ("limit", .int a.limit), ("confirmed", .bool a.confirmed)]

/-- The check of one counter: an `int` that is no `bool`, at least 1. -/
def positiveField (value : JsonObject) (name : String) : Except RecoveryError Int :=
  match value.get? name with
  | some (.int n) => if n < 1 then .error (.invalidField name) else .ok n
  | _ => .error (.invalidField name)

/-- `_validated_admission`. -/
def validatedAdmission : Json → Except RecoveryError RecoveryAdmission
  | .obj value => do
      let sequence ← positiveField value "sequence"
      let attempt ← positiveField value "attempt"
      let limit ← positiveField value "limit"
      match Dict.get? value "episode_id", Dict.get? value "confirmed" with
      | some (.str episodeId), some (.bool confirmed) =>
          if episodeId = "" ∨ limit < attempt then throw .invalidState
          else return ⟨episodeId, sequence, attempt, limit, confirmed⟩
      | _, _ => throw .invalidState
  | _ => throw .invalidAdmission

/-- What the loop of `next_recovery_admission` takes from one record. -/
def priorAdmission (owner : Json) (intentId : String) (record : HistoryRecord) :
    Except RecoveryError (Option RecoveryAdmission) :=
  if record.intentId = intentId then .ok none
  else match record.payload.get? "admission_task_id" with
  | none => .ok none
  | some priorOwner =>
      if priorOwner.pyEq owner then
        match record.payload.get? "recovery_admission" with
        | some value => (validatedAdmission value).map some
        | none =>
            if record.payload.get? "recovery_admission_denied" ≠ some (.bool true)
                ∧ record.source = "lifecycle_recovery"
                ∧ (record.state.terminal ∨ record.state = .queued ∧ 0 < record.attemptCount)
            then .error .legacyAttempt
            else .ok none
      else .ok none

/-- The admissions of one owner in the ledger, but for `intentId`'s. -/
def priorAdmissions (owner : Json) (intentId : String) :
    List HistoryRecord → Except RecoveryError (List RecoveryAdmission)
  | [] => .ok []
  | record :: history => do
      let admission ← priorAdmission owner intentId record
      let rest ← priorAdmissions owner intentId history
      return admission.toList ++ rest

/-- The admission after `latest`, if the limit allows one. -/
def followingAdmission (latest : Option RecoveryAdmission) (intentId : String)
    (maxAttempts : Int) : Option RecoveryAdmission :=
  let continuing := latest.filter fun a => !a.confirmed
  let limit := match continuing with
    | some a => min maxAttempts a.limit
    | none => maxAttempts
  let attempt := match continuing with
    | some a => a.attempt + 1
    | none => 1
  if limit < attempt then none
  else some {
    episodeId := (continuing.map (·.episodeId)).getD intentId
    sequence := match latest with
      | some a => a.sequence + 1
      | none => 1
    attempt := attempt
    limit := limit
    confirmed := false }

/-- `next_recovery_admission`; `none` is a denial. -/
def nextRecoveryAdmission (payload : JsonObject) (history : List HistoryRecord)
    (intentId : String) (maxAttempts : Int) :
    Except RecoveryError (Option RecoveryAdmission) :=
  if maxAttempts < 1 then .error .limitNotPositive
  else match payload.get? "admission_task_id" with
  | none => .error .requiresBoundAdmission
  | some owner =>
      if !payload.has "budget_checkpoint_id" || !payload.has "admission_evidence_cursor" then
        .error .requiresBoundAdmission
      else if payload.has "recovery_admission" then .error .mustNotBeReplayed
      else match priorAdmissions owner intentId history with
      | .error e => .error e
      | .ok previous =>
          if (previous.map (·.sequence)).Nodup then
            .ok (followingAdmission (previous.argmax (·.sequence)) intentId maxAttempts)
          else .error .duplicateSequence

/-- `confirmed_recovery_payload`. -/
def confirmedRecoveryPayload (payload : JsonObject) : Except RecoveryError JsonObject :=
  match payload.get? "recovery_admission" with
  | some (.obj admission) => do
      let _ ← validatedAdmission (.obj admission)
      return payload.set "recovery_admission"
        (.obj (Dict.set admission "confirmed" (.bool true)))
  | _ => .error .invalidAdmission

/-! ## Reconciliation at startup -/

/-- The body at rest, alive and in the state the intent observed. -/
def observedAtRest (payload : JsonObject) (state : BodyState) : Bool :=
  match payload.get? "state" with
  | some (.obj observed) =>
      (match Dict.get? observed "bot" with
        | some bot => bot.pyEq (.str state.bot)
        | none => false)
      && state.complete && !state.missing
      && (match state.health with
        | some health => decide (0 < health)
        | none => false)
      && state.bodyOwner.isNone && state.pendingActionCount = some 0
      && state.hazardUnresolved.isNone
  | _ => false

/-- What the loop of `reconciled_recovery_payload` takes from one record. -/
def reconcileCandidate (taskId : String) (record : HistoryRecord) :
    Except RecoveryError (Option (HistoryRecord × RecoveryAdmission)) :=
  let owned := match record.payload.get? "admission_task_id" with
    | some owner => owner.pyEq (.str taskId)
    | none => false
  match owned, record.payload.get? "recovery_admission" with
  | false, some _ =>
      if record.taskId = some taskId then .error .ambiguousOwnership else .ok none
  | false, none => .ok none
  | true, none => .ok none
  | true, some value => do
      let admission ← validatedAdmission value
      if record.state.terminal then return some (record, admission)
      else throw .liveInvocation

def reconcileCandidates (taskId : String) :
    List HistoryRecord → Except RecoveryError (List (HistoryRecord × RecoveryAdmission))
  | [] => .ok []
  | record :: history => do
      let candidate ← reconcileCandidate taskId record
      let rest ← reconcileCandidates taskId history
      return candidate.toList ++ rest

/-- The evidence `reconciled_recovery_payload` leaves beside the
confirmed admission. -/
def recoveryConfirmation (currentId taskId : String) (state : BodyState) : Json :=
  .obj [("source", .str "startup_body_state"), ("intent_id", .str currentId),
    ("task_id", .str taskId), ("bot", .str state.bot),
    ("health", match state.health with
      | some health => .float health
      | none => .null),
    ("complete", .bool state.complete), ("missing", .bool state.missing),
    ("body_owner", Json.ofString? state.bodyOwner),
    ("pending_action_count", match state.pendingActionCount with
      | some n => .int n
      | none => .null),
    ("hazard_unresolved", match state.hazardUnresolved with
      | some hazard => .obj hazard
      | none => .null)]

/-- `reconciled_recovery_payload`: the intent to settle, with its new
payload. -/
def reconciledRecoveryPayload (current : HistoryRecord) (history : List HistoryRecord)
    (state : BodyState) : Except RecoveryError (Option (String × JsonObject)) :=
  if current.kind ≠ .recoveryReconcile ∨ current.source ≠ "startup_reconcile" then
    .error .requiresStartupOwnership
  else match current.taskId, current.payload.get? "task" with
  | some taskId, some (.obj task) =>
      let sameTask := match Dict.get? task "task_id" with
        | some id => id.pyEq (.str taskId)
        | none => false
      let sameOwner := match current.payload.get? "admission_task_id" with
        | some owner => owner.pyEq (.str taskId)
        | none => true
      if taskId = "" ∨ !sameTask ∨ !sameOwner then .error .requiresOriginalTask
      else if current.payload.has "recovery_reconciled_intent_id" then .ok none
      else if !observedAtRest current.payload state then .ok none
      else match reconcileCandidates taskId history with
      | .error e => .error e
      | .ok candidates =>
          if ¬ (candidates.map (·.2.sequence)).Nodup then .error .duplicateSequence
          else match candidates.argmax (·.2.sequence) with
          | none => .ok none
          | some (record, admission) =>
              if admission.confirmed then .ok none
              else match confirmedRecoveryPayload record.payload with
              | .error e => .error e
              | .ok confirmed => .ok (some (record.intentId,
                  confirmed.set "recovery_confirmation"
                    (recoveryConfirmation current.intentId taskId state)))
  | _, _ => .error .requiresOriginalTask

end MineBot
