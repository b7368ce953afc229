import MineBot.Principals
import MineBot.TaskWorkspace
import MineBot.WorkQueue

/-!
# Session commands

`AgentSession` as far as it admits commands: `submit` puts a command through
the admission matrix and queues an intent, a step leases an intent and
applies its command to the task workspace, and a restart leaves what is
durable. In between, the rest of the program queues intents of its own and
works on the foreground task.

Who owns the current work is the field `goalPrincipalId` of the session; who
asked for a task is a column of the task. What a command does to the
conversation, to the skills and to the lifecycle is left out.
-/

namespace MineBot

namespace AgentSession

open Principals

inductive SessionCommandKind where
  | start
  | pause
  | «continue»
  | cancel
  | replaceGoal
  | message
  | quit
  | trust
  | stance
  | abandon
  | confirm
deriving DecidableEq

structure SessionCommand where
  kind : SessionCommandKind
  text : String
  reason : String
  sender : String
deriving DecidableEq

namespace SessionCommandKind

def value : SessionCommandKind → String
  | .start => "start"
  | .pause => "pause"
  | .continue => "continue"
  | .cancel => "cancel"
  | .replaceGoal => "replace_goal"
  | .message => "message"
  | .quit => "quit"
  | .trust => "trust"
  | .stance => "stance"
  | .abandon => "abandon"
  | .confirm => "confirm"

/-- `_ADMISSION_CAPABILITY`. -/
def admissionCapability : SessionCommandKind → AdmissionCapability
  | .message | .confirm => .converse
  | .start => .startWork
  | .pause | .continue | .cancel | .replaceGoal | .abandon => .controlWork
  | .quit | .trust | .stance => .controlProcess

/-- `_UNWIRED_DIALOGUE_KINDS`. -/
def unwired : SessionCommandKind → Bool
  | .trust | .stance | .abandon | .confirm => true
  | _ => false

/-- `WorkIntentKind(kind.value)`, which raises for the unwired kinds. -/
def intentKind : SessionCommandKind → Option WorkIntentKind
  | .start => some .start
  | .pause => some .pause
  | .continue => some .continue
  | .cancel => some .cancel
  | .replaceGoal => some .replaceGoal
  | .message => some .message
  | .quit => some .quit
  | .trust | .stance | .abandon | .confirm => none

/-- The kinds that interrupt what runs. -/
def alwaysInterrupt : SessionCommandKind → Bool
  | .pause | .cancel | .replaceGoal | .quit => true
  | _ => false

/-- A command that makes its sender the owner of the work. -/
def takesOver (kind : SessionCommandKind) : Bool := kind = .start || kind = .replaceGoal

end SessionCommandKind

/-- `SessionCommandKind(intent.kind.value)`. -/
def commandKind : WorkIntentKind → Option SessionCommandKind
  | .start => some .start
  | .pause => some .pause
  | .continue => some .continue
  | .cancel => some .cancel
  | .replaceGoal => some .replaceGoal
  | .message => some .message
  | .quit => some .quit
  | _ => none

/-- `superseded_kinds_for`. -/
def supersededKindsFor (kind : WorkIntentKind) : List WorkIntentKind :=
  if kind ∈ [.pause, .cancel, .replaceGoal, .quit] then
    [WorkIntentKind.start, .pause, .continue, .cancel, .replaceGoal, .message, .quit, .bodyEvent,
      .reflexFact, .recoveryReconcile, .completionReview, .taskBoundary, .taskContinue,
      .maintenance].filter fun candidate =>
        candidate ≠ kind ∧ candidate.workIntentPriority < kind.workIntentPriority
  else []

/-! ## The session -/

/-- What `parts` has of authority: the generation, how often the kernel was
halted, and the executions that were asked to be cancelled. -/
structure Parts where
  generation : Int
  halts : Nat
  cancels : List String
deriving DecidableEq

def Parts.init : Parts := ⟨0, 0, []⟩

/-- `invalidate_generation`. -/
def Parts.invalidateGeneration (parts : Parts) : Parts :=
  { parts with generation := parts.generation + 1 }

structure SessionState where
  registry : PrincipalRegistry
  /-- `_goal_principal_id` -/
  goalPrincipalId : Option String
  parts : Option Parts
  queue : MemoryWorkIntentQueue
  db : TaskDb
  /-- the intent of the step under way, and whether it was applied -/
  active : Option (WorkIntent × Bool)

namespace SessionState

variable (s : SessionState)

/-- `task_workspace.current_task`. -/
def currentTask (scopeKey : String) : Option TaskRecord := s.db.getForegroundTask scopeKey

/-! ### Submission -/

/-- The decision on a command. -/
def admission (command : SessionCommand) : AdmissionDecision :=
  (s.registry.evaluate command.kind.admissionCapability command.sender s.goalPrincipalId).1

/-- `_denied_command_text`. -/
def deniedCommandText (command : SessionCommand) : String :=
  if pyStrip command.text = "" then s!"(requested {command.kind.value})" else pyStrip command.text

/-- `_admit`: the command as it is admitted, and the session after it. -/
def admitCommand (command : SessionCommand) : SessionCommand × SessionState :=
  let decision := s.admission command
  let s := { s with registry := (s.registry.resolve command.sender).2 }
  if decision.allowed then
    (command, if command.kind.takesOver then
      { s with goalPrincipalId := some decision.principal.principalId } else s)
  else
    ({ kind := .message
       text := deniedCommandText command
       reason := s!"admission_denied:{command.kind.value}:{decision.reason}"
       sender := command.sender }, s)

/-- `_degrade_unwired_dialogue`. -/
def degradeUnwired (command : SessionCommand) : SessionCommand :=
  if command.kind.unwired then
    { kind := .message
      text := deniedCommandText command
      reason := s!"dialogue_unwired:{command.kind.value}"
      sender := command.sender }
  else command

/-- The command a submission queues. -/
def admitted (command : SessionCommand) : SessionCommand :=
  degradeUnwired (s.admitCommand command).1

/-- The payload of a command's intent. -/
def payloadOf (command : SessionCommand) : JsonObject :=
  [("text", .str command.text), ("reason", .str command.reason), ("sender", .str command.sender)]

/-- The interruption of what runs. -/
def interrupt (kind : SessionCommandKind) : SessionState :=
  if kind.alwaysInterrupt then
    { s with parts := s.parts.map fun parts =>
        { parts.invalidateGeneration with halts := parts.halts + 1 } }
  else s

/-- The request to cancel the execution that runs. -/
def requestCancel (kind : SessionCommandKind) : SessionState :=
  if kind.alwaysInterrupt then
    { s with parts := s.parts.map fun parts =>
        { parts with cancels := parts.cancels ++ [s!"session_command:{kind.value}"] } }
  else s

/-- The queueing of an admitted command. -/
def enqueueCommand (scopeKey : String) (command : SessionCommand) (kind : WorkIntentKind)
    (dedupeKey : Option String) (intentId : String) : WorkIntent × SessionState :=
  let s := s.interrupt command.kind
  let superseded := supersededKindsFor kind
  let queue := if superseded = [] then s.queue else (s.queue.supersede superseded).2
  let (intent, queue) := queue.enqueue kind
    (if command.reason = "" then command.kind.value else command.reason) (payloadOf command)
    dedupeKey ((s.currentTask scopeKey).map (·.taskId)) (s.parts.map (·.generation)) intentId
  (intent, { s with queue }.requestCancel command.kind)

/-- `submit`: the intent that is returned, if its kind is one. -/
def submit (scopeKey : String) (command : SessionCommand) (dedupeKey : Option String)
    (intentId : String) : Option WorkIntent × SessionState :=
  let (command, s) := s.admitCommand command
  let command := degradeUnwired command
  match dedupeKey.bind s.queue.getByDedupe with
  | some existing => (some existing, s)
  | none =>
      match command.kind.intentKind with
      | none => (none, s)
      | some kind =>
          let (intent, s) := s.enqueueCommand scopeKey command kind dedupeKey intentId
          (some intent, s)

/-! ### Execution -/

/-- A text of a payload, or what stands for it. -/
def payloadText (payload : JsonObject) (key default : String) : String :=
  match payload.get? key with
  | some (.str text) => if text = "" then default else text
  | _ => default

/-- `_command_from_intent`. -/
def commandFromIntent (intent : WorkIntent) : Option SessionCommand :=
  (commandKind intent.kind).map fun kind =>
    { kind
      text := payloadText intent.payload "text" ""
      reason := payloadText intent.payload "reason" intent.source
      sender := payloadText intent.payload "sender" "" }

/-- An operation of the task workspace, up to its commit. -/
def runOp (db : TaskDb) (scopeKey : String) (op : WorkspaceOp) (draws : Draws) (now : Nat) :
    Except TaskError TaskDb :=
  match op.issue db scopeKey with
  | .error e => .error e
  | .ok none => .ok db
  | .ok (some call) => (call.transact db draws now).map Prod.snd

/-- The parts, made if there are none; `renewed` tells whether a new goal
invalidates the generation of those that are there. -/
def ensureParts (renewed : Bool) : SessionState :=
  match s.parts with
  | none => { s with parts := some .init }
  | some parts => { s with parts := some (if renewed then parts.invalidateGeneration else parts) }

/-- The parts a command needs. -/
def prepareParts (scopeKey : String) (kind : SessionCommandKind) : SessionState :=
  match kind with
  | .start | .replaceGoal => s.ensureParts true
  | .message => s.ensureParts false
  | .continue => if (s.currentTask scopeKey).isSome then s.ensureParts false else s
  | _ => s

/-- The operation of a command on the task workspace. -/
def commandOp (command : SessionCommand) : Option WorkspaceOp :=
  match command.kind with
  | .start => some (.start command.text
      (if command.reason = "" then "user_start" else command.reason) command.sender)
  | .replaceGoal => some (.replace command.text
      (if command.reason = "" then "user_replace" else command.reason) command.sender)
  | .pause => some .pause
  | .continue => some .resume
  | .cancel => some .cancel
  | _ => none

/-- `_apply_command`. The parts are made before the task workspace is asked,
and stay when it raises. -/
def applyCommand (scopeKey : String) (command : SessionCommand) (draws : Draws) (now : Nat) :
    Except TaskError Unit × SessionState :=
  let s := s.prepareParts scopeKey command.kind
  match commandOp command with
  | none => (.ok (), s)
  | some op =>
      match runOp s.db scopeKey op draws now with
      | .ok db => (.ok (), { s with db })
      | .error e => (.error e, s)

/-- The intent of a step ends in this state, if it still holds its lease. -/
def settle (intent : WorkIntent) (state : WorkIntentState) : SessionState :=
  match s.queue.finish intent state with
  | .ok (_, queue) => { s with queue, active := none }
  | .error _ => { s with active := none }

/-- The start of `step`: an intent is leased. -/
def lease : SessionState :=
  match s.active with
  | some _ => s
  | none =>
      let (leased, queue) := s.queue.leaseNext none
      { s with queue, active := leased.map (·, false) }

/-- The command of the intent is applied, once. What it raises fails the
intent. -/
def execute (scopeKey : String) (draws : Draws) (now : Nat) : SessionState :=
  match s.active with
  | some (intent, false) =>
      match commandFromIntent intent with
      | none => { s with active := some (intent, true) }
      | some command =>
          match s.applyCommand scopeKey command draws now with
          | (.ok (), s) => { s with active := some (intent, true) }
          | (.error _, s) => s.settle intent .failed
  | _ => s

/-- A message that comes while a step runs is applied in it. -/
def steer (scopeKey : String) (draws : Draws) (now : Nat) : SessionState :=
  match s.queue.leaseNext (some .message) with
  | (none, _) => s
  | (some intent, queue) =>
      let s := match commandFromIntent intent with
        | some command => ({ s with queue }.applyCommand scopeKey command draws now).2
        | none => { s with queue }
      match s.queue.finish intent .completed with
      | .ok (_, queue) => { s with queue }
      | .error _ => s

/-- The end of `step`. -/
def finish (state : WorkIntentState) : SessionState :=
  match s.active with
  | some (intent, true) => s.settle intent state
  | _ => s

/-! ### Restarts -/

/-- What a restart finds of a durable queue: what was leased has failed, and a
quit that is queued is an earlier process's. -/
def durableQueue (queue : MemoryWorkIntentQueue) : MemoryWorkIntentQueue :=
  let failed : MemoryWorkIntentQueue := ⟨Table.updateWhere (fun r => r.state = .leased)
    (fun r => { r with state := .failed, revision := r.revision + 1 }) queue.records⟩
  (failed.supersede [.quit]).2

/-- What survives a restart beside the task tables: the queue, and the store of
the principals. -/
structure Survives where
  queue : Bool
  principals : Bool

/-- A new session over what is durable. -/
def restart (built : PrincipalRegistry) (survives : Survives) : SessionState where
  registry := if survives.principals then s.registry else built
  goalPrincipalId := none
  parts := none
  queue := if survives.queue then durableQueue s.queue else .empty
  db := s.db
  active := none

end SessionState

/-! ## Runs -/

inductive SessionInput where
  | submit (command : SessionCommand) (dedupeKey : Option String) (intentId : String)
  /-- an intent of the program's own -/
  | enqueue (kind : WorkIntentKind) (source : String) (payload : JsonObject)
      (dedupeKey taskId : Option String) (generation : Option Int) (intentId : String)
  | lease
  | execute (draws : Draws) (now : Nat)
  | steer (draws : Draws) (now : Nat)
  /-- the turn, or the code around it, works on the current task -/
  | work (op : WorkspaceOp) (draws : Draws) (now : Nat)
  | finish (state : WorkIntentState)
  /-- an intent of the program's own makes the parts -/
  | ensureParts
  | supersede (kinds : List WorkIntentKind)
  | restart (survives : SessionState.Survives)

/-- The operations that begin a task, which commands alone do. -/
def WorkspaceOp.begins : WorkspaceOp → Bool
  | .start .. | .replace .. => true
  | _ => false

/-- A step of the session: the intent a submission returns, and the session
after it. -/
def step (built : PrincipalRegistry) (scopeKey : String) (s : SessionState) :
    SessionInput → Option WorkIntent × SessionState
  | .submit command dedupeKey intentId => s.submit scopeKey command dedupeKey intentId
  | .enqueue kind source payload dedupeKey taskId generation intentId =>
      if (commandKind kind).isSome then (none, s)
      else
        let (intent, queue) := s.queue.enqueue kind source payload dedupeKey taskId generation intentId
        (some intent, { s with queue })
  | .lease => (none, s.lease)
  | .execute draws now => (none, s.execute scopeKey draws now)
  | .steer draws now => (none, s.steer scopeKey draws now)
  | .work op draws now =>
      if WorkspaceOp.begins op then (none, s)
      else
        match SessionState.runOp s.db scopeKey op draws now with
        | .ok db => (none, { s with db })
        | .error _ => (none, s)
  | .finish state => (none, s.finish state)
  | .ensureParts => (none, s.ensureParts false)
  | .supersede kinds => (none, { s with queue := (s.queue.supersede kinds).2 })
  | .restart survives => (none, s.restart built survives)

/-- A new process over an empty database. -/
def SessionState.init (built : PrincipalRegistry) : SessionState :=
  ⟨built, none, none, .empty, ⟨[], [], [], []⟩, none⟩

end AgentSession

end MineBot
