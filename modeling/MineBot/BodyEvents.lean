import MineBot.PollEvents
import MineBot.WorkQueue

/-!
# The event pump

`BodyEventPump` polls the Body, enqueues an intent for each material event
and then writes the cursor that the Body holds. Three cursors move at
different moments: the Body's own one in the poll, the keys of the intents
in the loop, the persisted one at the end.

A call of the queue or of the store may raise, before or after its
transaction; a process that is killed in a poll is one whose enqueue raises
and that starts anew. What the stance gate decides of an event is part of
the call.
-/

namespace MineBot

namespace BodyEventPump

/-! ## Material events -/

/-- `ALWAYS_MATERIAL_BODY_EVENTS`. -/
def alwaysMaterialBodyEvents : List String :=
  ["death", "bodyMissing", "respawned", "underAttack", "mobilityBlocked"]

/-- `TASK_TERMINAL_BODY_EVENTS`. -/
def taskTerminalBodyEvents : List String :=
  ["action_terminal", "moveDone", "navigateDone", "lookDone", "jumpDone", "selectSlotDone",
   "selectItemDone", "stopDone", "mineDone", "placeDone", "useDone", "rangedDone", "igniteDone",
   "sowDone", "attackDone", "engageDone", "followDone", "craftDone", "containerDone",
   "furnaceDone", "dropDone", "handoffDone", "moveItemDone", "itemPickup"]

/-- Python's text conversions: `str(value or "")` and `str.lower()`. -/
structure PyText where
  str : Option Json → String
  lower : String → String

/-- The arguments of `poll_once`, and what the stance gate decides. -/
structure PollArgs where
  taskId : Option String
  generation : Option Int
  taskWaiting : Bool
  waitCheckpointId : Option String
  waitFor : List String
  wakes : Event → Bool

section

variable (py : PyText)

def alwaysMaterial (event : Event) : Bool := event.name ∈ alwaysMaterialBodyEvents

def actionId (event : Event) : String := py.str (event.data.get? "action_id")

/-- A condition of `event_matches_wait_conditions`. -/
def matchesCondition (event : Event) (raw : String) : Bool :=
  let normal (text : String) : String := py.lower (pyStrip text)
  let condition := (pyStrip raw).toList
  let pre := condition.takeWhile (· ≠ ':')
  match condition.drop pre.length with
  | [] => condition ≠ [] && py.lower (pyStrip raw) = normal event.name
  | _ :: value =>
      let value := normal (.ofList value)
      match normal (.ofList pre) with
      | "event" => value = normal event.name
      | "action" => value ≠ "" && value = normal (actionId py event)
      | "entity" => value ≠ "" && ["entity", "entity_id", "uuid", "target", "target_uuid", "name",
          "attacker"].any fun key => value = normal (py.str (event.data.get? key))
      | _ => false

/-- `event_matches_wait_conditions`. -/
def eventMatchesWaitConditions (event : Event) (conditions : List String) : Bool :=
  conditions.any (matchesCondition py event)

/-- The event is selected. -/
def material (args : PollArgs) (event : Event) : Bool :=
  alwaysMaterial event
    || (args.taskWaiting && event.name ∈ taskTerminalBodyEvents
      && eventMatchesWaitConditions py event args.waitFor)
    || args.wakes event

/-- `_coalesce_material_events`: the last event of each name and action. -/
def coalesceMaterialEvents (args : PollArgs) (events : List Event) : List Event :=
  let selected : Dict (String × String) Event :=
    (events.filter (material py args)).foldl
      (fun selected event => Dict.set selected (event.name, actionId py event) event) []
  (selected.map Prod.snd).insertionSort fun e e' => e.seq ≤ e'.seq

end

/-! ## Intents -/

/-- The key of an event's intent. -/
def dedupeKey (epoch : String) (seq : Int) : String := s!"body:{epoch}:{seq}"

/-- The event as its intent carries it. -/
def eventPayload (event : Event) : Json :=
  .obj [("seq", .int event.seq), ("tick", .int event.tick), ("bot", .str event.bot),
    ("name", .str event.name), ("data", .obj event.data)]

/-- What `poll_once` enqueues for an event. -/
def intentDraft (epoch : String) (args : PollArgs) (event : Event) :
    RuntimeState.WorkIntentDraft :=
  let waitsForTerminal : Bool := event.name ∈ taskTerminalBodyEvents
  { kind := .bodyEvent
    source := "body_event"
    priority := WorkIntentKind.bodyEvent.workIntentPriority
    payload := [("event", eventPayload event),
      ("wait_checkpoint_id",
        if waitsForTerminal then (args.waitCheckpointId.map Json.str).getD .null else .null)]
    dedupeKey := some (dedupeKey epoch event.seq)
    taskId := args.taskId
    generation := if waitsForTerminal then args.generation else none }

/-- Where a call raises. -/
inductive Fault where
  | none
  | beforeCommit
  | afterCommit
deriving DecidableEq

/-- What the calls of a poll meet: the ids of new intents, the clock, and the
faults of the i-th enqueue and of the cursor write. -/
structure Circumstances where
  intentId : Nat → String
  now : Nat
  enqueueFault : Nat → Fault
  cursorFault : Bool

section

variable (scope : RuntimeScope) (epoch : String)

/-- The loop of `poll_once`, from its i-th event on: how many intents are
queued, or `none` where an enqueue raises. -/
def enqueueAll (args : PollArgs) (env : Circumstances) :
    Nat → List Event → RuntimeState → Option Nat × RuntimeState
  | _, [], st => (some 0, st)
  | i, event :: events, st =>
      if env.enqueueFault i = .beforeCommit then (none, st)
      else
        match st.enqueueWorkIntent scope (intentDraft epoch args event) none (env.intentId i)
          env.now with
        | .error _ => (none, st)
        | .ok (row, st) =>
            if env.enqueueFault i = .afterCommit then (none, st)
            else
              let (enqueued, st) := enqueueAll args env (i + 1) events st
              (enqueued.map fun n => n + if row.state = .queued then 1 else 0, st)

end

/-! ## The pump -/

/-- A pump, by the cursors its Body holds. -/
structure Pump where
  lastSeq : Int
  lastChatSeq : Int

/-- A row of `event_cursors`. -/
structure Cursor where
  lastSeq : Nat
  lastChatSeq : Nat
  epoch : Option String
deriving DecidableEq

/-- The database, and the pump of the process that runs, if it has one. -/
structure State where
  ledger : RuntimeState
  cursor : Option Cursor
  pump : Option Pump

/-- The calls on the pump of a Body epoch. -/
inductive Call where
  /-- a process starts and makes its pump -/
  | start (eventSeq chatSeq : Int) (cursorFault : Bool)
  /-- `poll_once`, with what the Body's client has buffered -/
  | pollOnce (gaps : List EventGap) (items : List BotEvent) (args : PollArgs)
      (env : Circumstances)
  /-- `poll_chat_events`, which moves the chat cursor -/
  | pollChatEvents (lastChatSeq : Int)
  | acknowledgeCursor (cursorFault : Bool)

/-- `BodyEventPollResult`. -/
structure PollResult where
  observed : Nat
  material : Nat
  enqueued : Nat
  lastSeq : Int
  epoch : String

/-- How a poll ends. -/
inductive PollEnd where
  | returned (result : PollResult)
  | enqueueRaised
  | cursorRaised

inductive Outcome where
  | done
  | raised
  | polled (events : List Event) (result : PollEnd)

section

variable (py : PyText) (bot : String) (scope : RuntimeScope) (epoch : String)

/-- `poll_events` of the Body. -/
def pollEvents (lastSeq : Int) (gaps : List EventGap) (items : List BotEvent) :
    List Event × Int :=
  let (desyncs, last) := JavaBody.desyncsOf bot lastSeq gaps
  let (events, last) := JavaBody.eventsOf bot last items
  (desyncs ++ events, last)

/-- `set_event_cursor`, for the epoch of the pump. -/
def setEventCursor (p : Pump) (s : State) : State :=
  { s with cursor := some ⟨p.lastSeq.toNat, p.lastChatSeq.toNat, some epoch⟩ }

/-- The pump that `__init__` makes, before it writes the cursor. -/
def initialPump (eventSeq chatSeq : Int) (cursor : Option Cursor) : Pump :=
  let headSeq := max 0 eventSeq
  let headChatSeq := max 0 chatSeq
  match cursor with
  | none => ⟨headSeq, headChatSeq⟩
  | some persisted =>
      if persisted.epoch = some epoch ∧ persisted.lastSeq ≤ headSeq
          ∧ persisted.lastChatSeq ≤ headChatSeq then
        ⟨persisted.lastSeq, persisted.lastChatSeq⟩
      else ⟨0, 0⟩

/-- `poll_once`. -/
def pollOnce (p : Pump) (gaps : List EventGap) (items : List BotEvent) (args : PollArgs)
    (env : Circumstances) (s : State) : Outcome × State :=
  let (events, lastSeq) := pollEvents bot p.lastSeq gaps items
  let selected := coalesceMaterialEvents py args events
  let p := { p with lastSeq := lastSeq }
  let (enqueued, ledger) := enqueueAll scope epoch args env 0 selected s.ledger
  let s := { s with ledger := ledger, pump := some p }
  match enqueued with
  | none => (.polled events .enqueueRaised, s)
  | some enqueued =>
      if env.cursorFault then (.polled events .cursorRaised, s)
      else
        (.polled events (.returned
          { observed := events.length
            material := selected.length
            enqueued := enqueued
            lastSeq := lastSeq
            epoch := epoch }), setEventCursor epoch p s)

def step (s : State) : Call → Outcome × State
  | .start eventSeq chatSeq cursorFault =>
      let p := initialPump epoch eventSeq chatSeq s.cursor
      if cursorFault then (.raised, { s with pump := none })
      else (.done, setEventCursor epoch p { s with pump := some p })
  | .pollOnce gaps items args env =>
      match s.pump with
      | none => (.raised, s)
      | some p => pollOnce py bot scope epoch p gaps items args env s
  | .pollChatEvents lastChatSeq =>
      match s.pump with
      | none => (.raised, s)
      | some p => (.done, { s with pump := some { p with lastChatSeq := lastChatSeq } })
  | .acknowledgeCursor cursorFault =>
      match s.pump with
      | none => (.raised, s)
      | some p => if cursorFault then (.raised, s) else (.done, setEventCursor epoch p s)

end

end BodyEventPump

end MineBot
