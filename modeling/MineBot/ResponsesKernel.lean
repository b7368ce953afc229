import MineBot.History
import MineBot.Text

/-!
# The Responses kernel over HTTP

`ResponsesKernel.run` drives one conversation through stateless HTTP
requests: `_HttpResponsesConnection` keeps the whole history, sends it
with every request and reads the answer in a stream task of its own,
while tool tasks, the player and the session go on.

The code is cooperative, so the model is a step function whose steps are
the stretches between two awaits. `Place` says at which await `run`
stands; every other party (the stream task, the reader and message
tasks, the tools, `steer`, `notify_fact`, cancellation) may step in
between. A wait may also wake for nothing.

Kept out, because nothing here depends on it: the instructions and tool
definitions of a request, token counts (whether a request is summarised
is up to the environment), telemetry, and what a tool task computes. An
absent and an empty item `id` are both `none`. The WebSocket transport,
`close` and `reset` are not modelled.
-/

namespace MineBot

namespace Responses

/-! ## Items of the conversation -/

/-- A `function_call` item. -/
structure ToolCall where
  callId : String
  name : String
  arguments : String
  toolNamespace : Option String := none
  asynchronous : Bool := false
deriving DecidableEq

/-- One part of a message's `content`. -/
structure Part where
  kind : String
  text : String
deriving DecidableEq

/-- An item of a model response. -/
inductive ModelItem where
  | call (call : ToolCall)
  /-- an assistant `message` -/
  | message (id : Option String) (content : List Part)
  | compaction (id : Option String) (content : String)
  /-- any other type, such as `reasoning` -/
  | other (id : Option String) (content : String)
deriving DecidableEq

/-- `item.get("call_id") or item.get("id")`. -/
def ModelItem.key : ModelItem → Option String
  | .call c => some c.callId
  | .message id _ | .compaction id _ | .other id _ => id

/-- The text `_observe_item` reads off a message. -/
def messageText (content : List Part) : String :=
  pyStrip ("\n".intercalate ((content.filter (·.kind = "output_text")).map Part.text))

/-- An item of a request's `input`. -/
inductive Item where
  | produced (item : ModelItem)
  /-- `function_call_output` -/
  | callOutput (callId output : String)
  | user (text : String)
  /-- `EXECUTION_FACT: …` -/
  | fact (value : String)
  /-- `CONVERSATION_SUMMARY (historical): …` -/
  | summary (text : String)
  /-- `CURRENT_CONTEXT: …` -/
  | snapshot (text : String)
deriving DecidableEq

namespace Item

def key : Item → Option String
  | .produced m => m.key
  | .callOutput callId _ => some callId
  | _ => none

def callId? : Item → Option String
  | .produced (.call c) => some c.callId
  | _ => none

def outputId? : Item → Option String
  | .callOutput callId _ => some callId
  | _ => none

def isUser : Item → Bool
  | .user _ => true
  | _ => false

def isCompaction : Item → Bool
  | .produced (.compaction ..) => true
  | _ => false

def snapshot? : Item → Option String
  | .snapshot text => some text
  | _ => none

end Item

/-- The `call_id`s of the function calls among `items`. -/
def callIds (items : List Item) : List String := items.filterMap Item.callId?

/-- The `call_id`s that `items` give an output for. -/
def outputIds (items : List Item) : List String := items.filterMap Item.outputId?

/-- `next((i for i in reversed(inputs) if _is_snapshot(i)), None)`, its text. -/
def latestSnapshot (items : List Item) : Option String :=
  (items.filterMap Item.snapshot?).getLast?

/-! ## The state -/

inductive TerminalKind where
  | completed
  /-- `response.incomplete`, with whether the reason was `steered` -/
  | incomplete (steered : Bool)
  | failed
deriving DecidableEq

/-- What `events` holds: an event of the stream, or the exception that ended it. -/
inductive Event where
  | created
  | itemDone (item : ModelItem)
  | terminal (kind : TerminalKind) (output : List ModelItem)
  /-- an `error` event -/
  | error
  | other
  /-- an exception -/
  | failure
deriving DecidableEq

/-- A task, as the code that created it sees it. -/
inductive Future (α : Type) where
  | absent
  | waiting
  | done (value : α)
deriving DecidableEq

def Future.toList {α : Type} : Future α → List α
  | .done value => [value]
  | _ => []

/-- `PendingCall`; `task` is the result of a task that is done. -/
structure PendingCall extends ToolCall where
  task : Option String := none
  delivered : Bool := false
deriving DecidableEq

/-- The task running `_stream`. -/
structure Stream where
  outputStart : Nat
  terminal : Bool := false
  /-- cancelled and not ended otherwise: awaiting it raises `CancelledError` -/
  cancelled : Bool := false
  finished : Bool := false
deriving DecidableEq

/-- The task still consumes events that are not the tail of a response. -/
def Stream.live (stream : Stream) : Bool :=
  !stream.terminal && !stream.cancelled && !stream.finished

/-- The await at which `run` stands. -/
inductive Place where
  | idle
  /-- `instructions()` and `context()`, with the inputs collected -/
  | preparing (inputs : List Item)
  /-- `_settle_stream` -/
  | settling (inputs : List Item) (snapshot : String)
  /-- token counting and `_summarize`; `added` is `send_raw`'s own `inputs` -/
  | counting (inputs added full : List Item) (snapshot : String)
  /-- `asyncio.wait(futures)` -/
  | waiting
  /-- `__aexit__` of the connection, under `except BaseException` -/
  | exiting
  /-- the `gather`s of the `finally` block, one for each future -/
  | cleaningReader
  | cleaningMessage
  | cleaningFact
deriving DecidableEq

structure State where
  /-- `_facts` -/
  facts : List String := []
  /-- `_messages` -/
  messages : List String := []
  /-- `_queued_inputs` -/
  queued : List String := []
  calls : List PendingCall := []
  /-- `_spoken_items` -/
  spoken : List String := []
  /-- `_submitted_calls` -/
  submitted : List String := []
  /-- `_active` -/
  active : Bool := false
  history : List Item := []
  /-- `_last_snapshot` -/
  lastSnapshot : Option String := none
  events : List Event := []
  /-- `self.request` of the connection -/
  stream : Option Stream := none
  place : Place := .idle
  reader : Future Event := .absent
  message : Future String := .absent
  /-- message tasks that a run left behind waiting -/
  orphans : Nat := 0
  /-- how many responses the run may still ask for -/
  responsesLeft : Option Nat := none

namespace State

/-- `pending` -/
def pending (s : State) : List PendingCall := s.calls.filter fun c => !c.delivered

/-- Events that the loop has not seen: the one its reader holds and the queue. -/
def unread (s : State) : List Event := s.reader.toList ++ s.events

/-- The stream task may still change the history. -/
def live (s : State) : Bool := s.stream.any Stream.live

end State

/-- A request as it left: what `send_raw` added to the history, the full
input that was sent, and the context snapshot given for it. -/
structure Request where
  added : List Item
  full : List Item
  snapshot : String
deriving DecidableEq

/-- What a step does to the outside. -/
structure Output where
  sent : Option Request := none
  /-- `speak`, with the id of the message spoken -/
  spoken : List (Option String × String) := []
  /-- the `call_id`s that a tool task was created for -/
  dispatched : List String := []
  /-- the loop reminded itself of the goal -/
  nudged : Bool := false
deriving DecidableEq

/-! ## Leaving a run -/

namespace State

/-- `__aexit__` after its await, and the rest of `except BaseException`. -/
def afterExit (s : State) : State :=
  { s with stream := none, events := [], active := false, submitted := [] }

/-- The `finally` block up to its first await; a run without its tasks is over. -/
def cleanup (s : State) : State :=
  match s.reader with
  | .absent => { s with place := .idle }
  | _ => { s with reader := .absent, place := .cleaningReader }

/-- An exception leaves the loop: `__aexit__` cancels a stream task and awaits it. -/
def interrupt (s : State) : State :=
  match s.stream with
  | some stream =>
      { s with stream := some { stream with cancelled := !stream.finished }, place := .exiting }
  | none => s.afterExit.cleanup

/-- The awaits of leaving a run come to their end, one at a time. -/
def proceed (s : State) : State :=
  match s.place with
  | .exiting => s.afterExit.cleanup
  | .cleaningReader =>
      { s with queued := s.queued ++ s.message.toList, message := .absent, place := .cleaningMessage }
  | .cleaningMessage => { s with place := .cleaningFact }
  | .cleaningFact => { s with place := .idle }
  | _ => s

/-- The run's task is cancelled at the await it stands at. -/
def cancel (s : State) : State :=
  match s.place with
  | .idle => s
  | .preparing _ | .settling .. | .counting .. | .waiting => s.interrupt
  | .exiting => s.cleanup
  | .cleaningReader =>
      { s with
        orphans := if s.message = .waiting then s.orphans + 1 else s.orphans
        message := .absent, place := .idle }
  | .cleaningMessage | .cleaningFact => { s with place := .idle }

end State

/-! ## The top of the loop -/

def nudge : String :=
  "The current goal is still active. Continue executing it, "
    ++ "or use finish_task with the actual result or concrete blocker."

namespace State

/-- The inputs of the next request. -/
def collect (s : State) : List Item :=
  if s.pending.any fun c => !c.asynchronous && c.task.isNone then []
  else s.pending.filterMap (fun c => c.task.map (.callOutput c.callId))
    ++ s.facts.map .fact ++ s.queued.map .user

/-- A non-empty `inputs` goes to `_create`, within the limit of the run. -/
def create (s : State) (inputs : List Item) : State :=
  if s.responsesLeft = some 0 then s.interrupt else { s with place := .preparing inputs }

/-- `while True`, up to the next await; the flag says whether the loop
reminded itself of the goal. -/
def loopTop (s : State) (needsWork : Bool) : State × Bool :=
  if s.active then ({ s with place := .waiting }, false)
  else if s.collect ≠ [] then (s.create s.collect, false)
  else if s.pending = [] ∧ s.messages = [] ∧ s.message.toList = [] then
    if needsWork then
      let s := { s with queued := s.queued ++ [nudge] }
      (s.create s.collect, true)
    else (s.cleanup, false)
  else ({ s with place := .waiting }, false)

end State

/-! ## Observing the model -/

/-- A stretch of the loop: where it stands, what it did, and whether it raised. -/
structure Turn where
  state : State
  out : Output := {}
  raised : Bool := false

/-- The loop remembers a call: `_dispatch` compares these. -/
def ToolCall.agrees (c d : ToolCall) : Bool :=
  c.name = d.name && c.arguments = d.arguments && c.toolNamespace = d.toolNamespace

namespace Turn

/-- `_dispatch`. -/
def dispatch (t : Turn) : ModelItem → Turn
  | .call c =>
      match t.state.calls.find? (·.callId = c.callId) with
      | some old => if c.agrees old.toToolCall then t else { t with raised := true }
      | none =>
          { t with
            state := { t.state with calls := t.state.calls ++ [{ toToolCall := c }] }
            out := { t.out with dispatched := t.out.dispatched ++ [c.callId] } }
  | _ => t

/-- `self.speak(text)`, unless there is nothing to say. -/
def say (t : Turn) (id : Option String) (text : String) : Turn :=
  if text = "" then t
  else { t with out := { t.out with spoken := t.out.spoken ++ [(id, text)] } }

/-- The rest of `_observe_item`. -/
def hear (t : Turn) : ModelItem → Turn
  | .message (some id) content =>
      if id ∈ t.state.spoken then t
      else { t with state := { t.state with spoken := t.state.spoken ++ [id] } }.say (some id)
        (messageText content)
  | .message none content => t.say none (messageText content)
  | _ => t

/-- `_observe_item`. -/
def observeItem (t : Turn) (m : ModelItem) : Turn :=
  if (t.dispatch m).raised then t.dispatch m else (t.dispatch m).hear m

/-- A `for` loop, left by the first exception. -/
def each (f : Turn → ModelItem → Turn) (t : Turn) : List ModelItem → Turn
  | [] => t
  | m :: ms => if (f t m).raised then f t m else each f (f t m) ms

/-- The loop goes on, or is left by an exception. -/
def resume (t : Turn) (needsWork : Bool) : Turn :=
  if t.raised then { t with state := t.state.interrupt }
  else
    { t with
      state := (t.state.loopTop needsWork).1
      out := { t.out with nudged := (t.state.loopTop needsWork).2 } }

end Turn

/-- A terminal that is an error: failed, or incomplete and not steered. -/
def TerminalKind.fails : TerminalKind → Bool
  | .completed | .incomplete true => false
  | .failed | .incomplete false => true

namespace State

/-- An event of the reader; an exception is raised before a new reader is made. -/
def readEvent (s : State) : Turn :=
  match s.reader with
  | .done .created =>
      { state := { s with
          reader := .waiting
          calls := s.calls.map fun c =>
            if c.callId ∈ s.submitted then { c with delivered := true } else c
          submitted := [], active := true } }
  | .done (.itemDone item) => ({ state := { s with reader := .waiting } } : Turn).observeItem item
  | .done (.terminal kind output) =>
      let t := ({ state := { s with reader := .waiting, active := false } } : Turn).each
        Turn.observeItem output
      { t with raised := t.raised || kind.fails }
  | .done .error => { state := { s with reader := .waiting }, raised := true }
  | .done .other => { state := { s with reader := .waiting } }
  | .done .failure => { state := s, raised := true }
  | _ => { state := s }

/-- A text of the message task. -/
def readMessage (s : State) : State :=
  match s.message with
  | .done text => { s with queued := s.queued ++ [text], message := .waiting }
  | _ => s

/-- `asyncio.wait` returns: the event, then the message, then the loop again. -/
def wake (s : State) (needsWork : Bool) : Turn :=
  if s.readEvent.raised then s.readEvent.resume needsWork
  else { s.readEvent with state := s.readEvent.state.readMessage }.resume needsWork

/-- The model items of the history. -/
def produced (s : State) : List ModelItem :=
  s.history.filterMap fun
    | .produced m => some m
    | _ => none

/-- `run` on its way into the loop: a call in the history has its task. -/
def redispatch (s : State) (text : String) (limit : Option Nat) : Turn :=
  ({ state := { s with
      queued := s.queued ++ (if text = "" then [] else [text])
      responsesLeft := limit } } : Turn).each Turn.dispatch s.produced

/-- `run`, up to its first await. -/
def run (s : State) (text : String) (limit : Option Nat) (needsWork : Bool) : Turn :=
  if (s.redispatch text limit).raised then (s.redispatch text limit).resume needsWork
  else
    { s.redispatch text limit with
      state := { (s.redispatch text limit).state with
        reader := .waiting, message := .waiting } }.resume needsWork

end State

/-! ## Sending a request -/

/-- A character inside a JSON string. -/
def quoteChar (c : Char) : String :=
  if c = '"' then "\\\"" else if c = '\\' then "\\\\"
  else if c = '\n' then "\\n" else if c = '\r' then "\\r" else if c = '\t' then "\\t"
  else if c.toNat = 8 then "\\b" else if c.toNat = 12 then "\\f"
  else if c.toNat < 32 then
    "\\u00" ++ .ofList [Nat.digitChar (c.toNat / 16), Nat.digitChar (c.toNat % 16)]
  else String.singleton c

/-- `json.dumps(text, ensure_ascii=False)` -/
def quoteText (text : String) : String :=
  "\"" ++ String.join (text.toList.map quoteChar) ++ "\""

/-- `json.dumps` of the pending calls. -/
def runningTools (pending : List PendingCall) : String :=
  "[" ++ ", ".intercalate (pending.map fun c =>
    "\x7b\"call_id\": " ++ quoteText c.callId ++ ", \"tool\": " ++ quoteText c.name ++
      ", \"done\": " ++ (if c.task.isSome then "true" else "false") ++ "\x7d") ++ "]"

/-- `_summarize` put the text `text` together; it defers while a call has no output. -/
def summarize (text : String) (inputs : List Item) : List Item :=
  if (callIds inputs).all (· ∈ outputIds inputs) then
    inputs.filter Item.isUser ++ [.summary text] ++ ((latestSnapshot inputs).map .snapshot).toList
  else inputs

namespace State

/-- The `_current_context` of a request; the running tools go into the
instructions when there is no context callback. -/
def currentContext (s : State) : Option String → String
  | none => ""
  | some text =>
      if s.pending = [] then text else text ++ "\nRUNNING_TOOLS: " ++ runningTools s.pending

/-- `_create`, from `context()` to `_settle_stream`. -/
def prepare (s : State) (context : Option String) : State :=
  match s.place with
  | .preparing inputs => { s with place := .settling inputs (s.currentContext context) }
  | _ => s

/-- What `send_raw` adds to the history. -/
def added (s : State) (inputs : List Item) (snapshot : String) : List Item :=
  (inputs.filter fun i => i.outputId?.all fun callId => callId ∉ outputIds s.history)
    ++ (if snapshot ≠ "" ∧ s.lastSnapshot ≠ some snapshot then [.snapshot snapshot] else [])

/-- `_settle_stream` returns: the old stream has ended, or is closed after
its time; of a cancelled one it raises. -/
def settle (s : State) : State :=
  match s.place with
  | .settling inputs snapshot =>
      if s.stream.any Stream.cancelled then s.interrupt
      else
        { s with
          stream := s.stream.map fun stream => { stream with finished := true }
          place := .counting inputs (s.added inputs snapshot)
            (s.history ++ s.added inputs snapshot) snapshot }
  | _ => s

/-- The rest of `send_raw`, of `_create` and of the branch in `run`. A
summary is made when the counts ask for one. -/
def request (s : State) (summary : Option String) : Output × State :=
  match s.place with
  | .counting inputs added full snapshot =>
      let full := (summary.map (summarize · full)).getD full
      ({ sent := some { added, full, snapshot } },
        { s with
          history := full
          lastSnapshot := if snapshot ≠ "" then some snapshot else s.lastSnapshot
          stream := some { outputStart := full.length }
          submitted := outputIds inputs
          active := true
          facts := [], queued := []
          responsesLeft := s.responsesLeft.map (· - 1)
          place := .waiting })
  | _ => ({}, s)

/-- A callback, counting or summarising raises. -/
def fail (s : State) : State :=
  match s.place with
  | .preparing _ | .settling .. | .counting .. => s.interrupt
  | _ => s

end State

/-! ## The stream task -/

/-- The history from its latest compaction item on, and what comes before. -/
def splitLatest : List Item → Option (List Item × List Item)
  | [] => none
  | i :: is =>
      match splitLatest is with
      | some (before, kept) => some (i :: before, kept)
      | none => if i.isCompaction then some ([], i :: is) else none

/-- One item of a terminal's `output`, merged into the items streamed. -/
def mergeItem (output : List Item) (m : ModelItem) : List Item :=
  match m.key.bind fun key => output.findIdx? fun old => old.key = some key with
  | some i => output.set i (.produced m)
  | none => if .produced m ∈ output then output else output ++ [.produced m]

namespace State

/-- `_prune_compacted_history`. -/
def pruneCompactedHistory (s : State) : State :=
  match splitLatest s.history with
  | some (before, kept) =>
      if (callIds before).all (· ∈ outputIds s.history) then
        { s with history := kept, lastSnapshot := none }
      else s
  | none => s

/-- A terminal's `output`, merged into what was streamed since `start`. -/
def mergeHistory (s : State) (start : Nat) (output : List ModelItem) : State :=
  { s with history := s.history.take start ++ output.foldl mergeItem (s.history.drop start) }

/-- What a terminal does to the history. -/
def mergeOutput (s : State) (start : Nat) (kind : TerminalKind) (output : List ModelItem) : State :=
  if kind = .completed then (s.mergeHistory start output).pruneCompactedHistory
  else s.mergeHistory start output

/-- An event comes in; what follows a terminal is skipped. -/
def receive (s : State) (e : Event) : State :=
  match s.stream with
  | none => s
  | some stream =>
      if !stream.live then s
      else match e with
      | .itemDone m => { s with history := s.history ++ [.produced m], events := s.events ++ [e] }
      | .terminal kind output =>
          { s.mergeOutput stream.outputStart kind output with
            events := s.events ++ [e], stream := some { stream with terminal := true } }
      | .failure => s
      | e => { s with events := s.events ++ [e] }

/-- The stream task ends by itself: with an exception in the queue, unless
it has seen a terminal. -/
def endStream (s : State) : State :=
  match s.stream with
  | none => s
  | some stream =>
      if stream.finished then s
      else
        { s with
          stream := some { stream with cancelled := false, finished := true }
          events := if stream.terminal then s.events else s.events ++ [.failure] }

end State

/-! ## The step function -/

/-- What can happen next. -/
inductive Act where
  | run (text : String) (limit : Option Nat) (needsWork : Bool)
  | steer (text : String)
  | notifyFact (value : String)
  | toolDone (callId output : String)
  /-- the message task gets a text -/
  | takeMessage
  /-- so does one that a run left behind -/
  | takeOrphan
  /-- the reader task gets an event -/
  | takeEvent
  | prepare (context : Option String)
  | settle
  | request (summary : Option String)
  | fail
  | wake (needsWork : Bool)
  | receive (e : Event)
  | endStream
  | proceed
  | cancel
deriving DecidableEq

namespace State

def takeMessage (s : State) : State :=
  match s.message, s.messages with
  | .waiting, text :: texts => { s with message := .done text, messages := texts }
  | _, _ => s

def takeOrphan (s : State) : State :=
  match s.orphans, s.messages with
  | n + 1, _ :: texts => { s with orphans := n, messages := texts }
  | _, _ => s

def takeEvent (s : State) : State :=
  match s.reader, s.events with
  | .waiting, e :: es => { s with reader := .done e, events := es }
  | _, _ => s

def toolDone (s : State) (callId output : String) : State :=
  { s with calls := s.calls.map fun c =>
      if c.callId = callId ∧ c.task = none then { c with task := some output } else c }

end State

/-- A `run` while another one is running raises and changes nothing. -/
def step (s : State) : Act → Output × State
  | .run text limit needsWork =>
      if s.place = .idle then ((s.run text limit needsWork).out, (s.run text limit needsWork).state)
      else ({}, s)
  | .steer text => ({}, { s with messages := s.messages ++ [text] })
  | .notifyFact value => ({}, { s with facts := s.facts ++ [value] })
  | .toolDone callId output => ({}, s.toolDone callId output)
  | .takeMessage => ({}, s.takeMessage)
  | .takeOrphan => ({}, s.takeOrphan)
  | .takeEvent => ({}, s.takeEvent)
  | .prepare context => ({}, s.prepare context)
  | .settle => ({}, s.settle)
  | .request summary => s.request summary
  | .fail => ({}, s.fail)
  | .wake needsWork =>
      if s.place = .waiting then ((s.wake needsWork).out, (s.wake needsWork).state) else ({}, s)
  | .receive e => ({}, s.receive e)
  | .endStream => ({}, s.endStream)
  | .proceed => ({}, s.proceed)
  | .cancel => ({}, s.cancel)

/-- The log of a run. -/
abbrev Log := List (Act × Output)

/-! ## What observing leaves alone -/

/-- `_dispatch` changes the calls and says which it dispatched. -/
theorem dispatch_frame (t : Turn) (m : ModelItem) :
    ∃ calls dispatched raised, t.dispatch m =
      { state := { t.state with calls }, out := { t.out with dispatched }, raised } := by
  unfold Turn.dispatch
  split
  · split
    · split <;> exact ⟨_, _, _, rfl⟩
    · exact ⟨_, _, _, rfl⟩
  · exact ⟨_, _, _, rfl⟩

theorem say_frame (t : Turn) (id : Option String) (text : String) :
    ∃ said, t.say id text = { t with out := { t.out with spoken := said } } := by
  unfold Turn.say
  split <;> exact ⟨_, rfl⟩

theorem hear_frame (t : Turn) (m : ModelItem) :
    ∃ spoken said, t.hear m =
      { t with state := { t.state with spoken }, out := { t.out with spoken := said } } := by
  unfold Turn.hear
  split
  · split
    · exact ⟨_, _, rfl⟩
    · obtain ⟨said, h⟩ := say_frame _ _ _
      exact ⟨_, said, h⟩
  · obtain ⟨said, h⟩ := say_frame t none _
    exact ⟨_, said, h⟩
  · exact ⟨_, _, rfl⟩

/-- A turn that differs in calls, ids spoken and what was done with them. -/
def Turn.Observes (t t' : Turn) : Prop :=
  ∃ calls spoken said dispatched raised, t' =
    { state := { t.state with calls, spoken }
      out := { t.out with spoken := said, dispatched }
      raised }

theorem Turn.Observes.trans {t t' t'' : Turn} (h : t.Observes t') (h' : t'.Observes t'') :
    t.Observes t'' := by
  obtain ⟨_, _, _, _, _, rfl⟩ := h
  obtain ⟨_, _, _, _, _, rfl⟩ := h'
  exact ⟨_, _, _, _, _, rfl⟩

theorem observes_dispatch (t : Turn) (m : ModelItem) : t.Observes (t.dispatch m) := by
  obtain ⟨_, _, _, h⟩ := dispatch_frame t m
  exact ⟨_, _, _, _, _, h⟩

theorem observes_observeItem (t : Turn) (m : ModelItem) : t.Observes (t.observeItem m) := by
  unfold Turn.observeItem
  split
  · exact observes_dispatch t m
  · obtain ⟨_, _, h⟩ := hear_frame (t.dispatch m) m
    exact (observes_dispatch t m).trans ⟨_, _, _, _, _, h⟩

theorem observes_each {f : Turn → ModelItem → Turn} (hf : ∀ (t : Turn) m, t.Observes (f t m)) (t : Turn)
    (ms : List ModelItem) : t.Observes (t.each f ms) := by
  induction ms generalizing t with
  | nil => exact ⟨_, _, _, _, _, rfl⟩
  | cons m ms ih =>
      unfold Turn.each
      split
      · exact hf t m
      · exact (hf t m).trans (ih _)

/-- A terminal changes the history and what is known of its last snapshot. -/
theorem mergeOutput_frame (s : State) (start : Nat) (kind : TerminalKind)
    (output : List ModelItem) :
    ∃ history lastSnapshot, s.mergeOutput start kind output = { s with history, lastSnapshot } := by
  unfold State.mergeOutput State.pruneCompactedHistory
  split
  · split
    · split <;> exact ⟨_, _, rfl⟩
    · exact ⟨_, _, rfl⟩
  · exact ⟨_, _, rfl⟩

end Responses

end MineBot
