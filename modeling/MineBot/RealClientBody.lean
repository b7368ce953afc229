import MineBot.History
import MineBot.RealClientActions

/-!
# The body of the real client

`RealClientBody`, driven by any number of threads: callers of `execute`,
`confirm_control_idle` and `poll_events`, one worker for each accepted action
and the reader that hands over lifecycle events. A step is one section under
the body's lock, one number drawn with `_next_seq`, or one IPC exchange with
what came of it. Which step comes next, and what the exchanges bring, is the
environment's.

The requests of a worker and of a probe are one exchange each; what a drop
adds to the response of its control is part of the response. The cache of the
last state, the listeners and the observations a worker reports leave what is
here alone.
-/

namespace MineBot

namespace RealClient

open Objective (Python ParamError)

/-! ## State -/

/-- `_PendingAction`. -/
structure PendingAction where
  action : Action
  done : Bool := false
  terminal : Option Event := none
  observerErrors : Nat := 0
  lateTerminal : Option Event := none

/-- Where `_run_action` stands. -/
inductive Phase where
  /-- its request has no answer yet -/
  | waiting
  /-- it has made an event, without a number -/
  | answered (event : Event)
  /-- the event has its number -/
  | numbered (event : Event)
  | ended

/-- The thread of `_run_action`, with its pending action. -/
structure Worker where
  pending : PendingAction
  route : Route
  phase : Phase := .waiting

/-- Where `confirm_control_idle` stands. -/
inductive Probe where
  /-- it has read the native state -/
  | sampled
  /-- it goes through the actions that ended without a native terminal -/
  | archiving (candidates : List Nat)
  /-- a late terminal has come in, without a number -/
  | taken (w : Nat) (event : Event) (candidates : List Nat)
  /-- the late terminal has its number -/
  | storing (w : Nat) (event : Event) (candidates : List Nat)
  | ended

/-- A call of `confirm_control_idle`. -/
structure Confirm where
  state : JsonObject
  lateFacts : Option JsonObject := none
  probe : Probe := .sampled

/-- The body and its threads. An action is known by the place of its worker. -/
structure Body where
  botName : String
  lastSeq : Int := 0
  eventLog : List Event := []
  active : Option Nat := none
  controlUnknown : Bool := false
  pending : Dict String Nat := []
  eventQueue : List Event := []
  lifecycleSeen : List (String × Int) := []
  workers : List Worker := []
  confirms : List Confirm := []

/-- What the exchange of a worker comes to. -/
inductive Exchange where
  /-- the response to a control -/
  | response (response : JsonObject)
  /-- the terminal of an action -/
  | terminal (terminal : Terminal)
  /-- a message of the type `rejected` -/
  | rejected (reason : String)
  /-- an exception of the transport -/
  | transport (kind message : String)

/-- The payload of a `body_event`. -/
structure BodyEvent where
  name : String
  epoch : Option String
  seq : Option Int
  tick : Option Int
  data : Option JsonObject

def lifecycleNames : List String := ["death", "respawned", "world_ready", "world_disconnected"]

/-- `native_id`. -/
def BodyEvent.nativeId (payload : BodyEvent) : String × Int :=
  (payload.epoch.getD "", payload.seq.getD 0)

inductive Input where
  | execute (action : Action)
  /-- an observer of a worker's progress raises -/
  | observerError (w : Nat)
  | answer (w : Nat) (exchange : Exchange)
  /-- a worker draws its number -/
  | draw (w : Nat)
  /-- the last section of a worker -/
  | settle (w : Nat)
  | lifecycle (payload : BodyEvent)
  | poll
  /-- `confirm_control_idle` is called and reads the native state -/
  | sample (state : JsonObject)
  | candidates (c : Nat)
  | takeLate (c : Nat) (payload : Option JsonObject)
  | drawLate (c : Nat)
  | storeLate (c : Nat)
  /-- the last section of `confirm_control_idle` -/
  | conclude (c : Nat)

/-- What `confirm_control_idle` returns. -/
structure Idle where
  nativeStopped : Bool
  controlUnknown : Bool
  activeActionId : Json
  sampledAtMs : Json
  lateNativeTerminal : Option JsonObject

inductive Output where
  /-- `execute` has started the worker `w` -/
  | accepted (w : Nat) (route : Route) (data : JsonObject)
  | refused (error : String)
  | raised (error : ParamError)
  /-- the exchange of a worker is over -/
  | answered
  | settled (event : Event)
  | polled (events : List Event)
  | sampled (c : Nat)
  | idle (facts : Idle)
  | nothing

namespace Body

/-- The worker `w` goes on with `f`. -/
def onWorker (b : Body) (w : Nat) (f : Worker → Worker) : Body :=
  { b with workers := b.workers.modify w f }

/-- The probe `c` goes on with `f`. -/
def onConfirm (b : Body) (c : Nat) (f : Confirm → Confirm) : Body :=
  { b with confirms := b.confirms.modify c f }

/-! ## Actions -/

/-- `_gap_result`, of which only the error varies. -/
def gap (reason : String) : Output := .refused ("capability_unavailable:" ++ reason)

/-- The controls that are let through beside the active action. -/
def allowedControls (b : Body) : List String :=
  let names := (b.active.bind (b.workers[·]?)).map (·.pending.action.name)
  ["builder_pause", "builder_resume"] ++
    if names = some "getToBlock" ∨ names = some "baritoneGetToBlock" then ["get_to_block_blacklist"]
    else []

/-- The data of an accepted result. -/
def acceptedData (action : Action) (route : Route) : JsonObject :=
  let text (value : Option String) : Json := (value.map Json.str).getD .null
  [("action", .str action.name), ("objective", text route.objective),
   ("wire_action", text (route.wireAction.map Prod.fst)),
   ("control", text (route.control.map Prod.fst)), ("provider", .str "baritone")]

/-- `execute`. -/
def execute (b : Body) (py : Python) (action : Action) : Output × Body :=
  match routeOf py action with
  | .error error => (.raised error, b)
  | .ok route =>
      if route.objective.isNone ∧ route.wireAction.isNone ∧ route.control.isNone then
        (gap "unsupported_action", b)
      else if b.active.isSome ∧ !route.control.any fun control => control.1 ∈ b.allowedControls then
        (gap "body_busy", b)
      else if route.control.isNone ∧ b.controlUnknown then (gap "control_unknown", b)
      else
        let w := b.workers.length
        (.accepted w route (acceptedData action route), { b with
          active := if route.control.isNone then some w else b.active
          pending := b.pending.set action.id w
          workers := b.workers ++ [{ pending := { action }, route }] })

/-- The event a worker makes of its exchange; `none` for an answer that the
request cannot get. A rejection of an action is a `RealClientIpcError`. -/
def eventOf (botName : String) (action : Action) (control : Option Request) :
    Exchange → Option Event
  | .response response =>
      if control.isSome then some (controlEvent botName action response) else none
  | .terminal terminal =>
      if control.isSome then none else some (terminalEvent botName action terminal)
  | .rejected reason =>
      some (failureEvent botName action control
        (if control.isSome then .rejected reason else .failed "RealClientIpcError" reason))
  | .transport kind message => some (failureEvent botName action control (.failed kind message))

/-- An observer of a worker raises. -/
def observerError (b : Body) (w : Nat) : Output × Body :=
  match b.workers[w]? with
  | some ⟨_, _, .waiting⟩ =>
      (.nothing, b.onWorker w fun worker =>
        { worker with pending :=
            { worker.pending with observerErrors := worker.pending.observerErrors + 1 } })
  | _ => (.nothing, b)

/-- The exchange of a worker ends. -/
def answer (b : Body) (w : Nat) (exchange : Exchange) : Output × Body :=
  match b.workers[w]? with
  | some ⟨pending, route, .waiting⟩ =>
      match eventOf b.botName pending.action route.control exchange with
      | some event => (.answered, b.onWorker w fun worker => { worker with phase := .answered event })
      | none => (.nothing, b)
  | _ => (.nothing, b)

/-- `_next_seq`, for the event of a worker. -/
def draw (b : Body) (w : Nat) : Output × Body :=
  match b.workers[w]? with
  | some ⟨_, _, .answered event⟩ =>
      let b := { b with lastSeq := b.lastSeq + 1 }
      (.nothing, b.onWorker w fun worker =>
        { worker with phase := .numbered { event with seq := b.lastSeq } })
  | _ => (.nothing, b)

/-- The event as it is queued. -/
def withObserverErrors (event : Event) (errors : Nat) : Event :=
  if errors = 0 then event
  else { event with data := event.data.set "progress_observer_errors" (.int errors) }

/-- The worker after its last section. -/
def ended (event : Event) (worker : Worker) : Worker :=
  { worker with
    phase := .ended
    pending := { worker.pending with terminal := some event, done := true } }

/-- The last section of `_run_action`. -/
def settle (b : Body) (w : Nat) : Output × Body :=
  match b.workers[w]? with
  | some ⟨pending, _, .numbered event⟩ =>
      let event := withObserverErrors event pending.observerErrors
      let b := b.onWorker w (ended event)
      let b : Body := { b with
        eventQueue := b.eventQueue ++ [event]
        eventLog := b.eventLog ++ [event] }
      (.settled event,
        if b.active = some w then
          if leavesControlUnknown event then { b with controlUnknown := true }
          else { b with active := none }
        else b)
  | _ => (.nothing, b)

/-! ## Events -/

/-- The event of a lifecycle payload. -/
def lifecycleEvent (b : Body) (payload : BodyEvent) : Event :=
  { seq := b.lastSeq + 1
    tick := payload.tick.getD 0
    bot := b.botName
    name := payload.name
    data := Dict.update (payload.data.getD [])
      [("native_epoch", .str payload.nativeId.1), ("native_seq", .int payload.nativeId.2)] }

/-- `_on_lifecycle_event`. -/
def onLifecycleEvent (b : Body) (payload : BodyEvent) : Output × Body :=
  if payload.name ∉ lifecycleNames ∨ payload.nativeId ∈ b.lifecycleSeen then (.nothing, b)
  else
    (.nothing, { b with
      lifecycleSeen := payload.nativeId :: b.lifecycleSeen
      lastSeq := b.lastSeq + 1
      eventLog := b.eventLog ++ [b.lifecycleEvent payload]
      eventQueue := b.eventQueue ++ [b.lifecycleEvent payload] })

/-- `poll_events`. -/
def pollEvents (b : Body) : Output × Body :=
  (.polled b.eventQueue, { b with eventQueue := [] })

/-! ## Native evidence -/

/-- No action, no process and no path, as a state reports it. -/
def stopped (state : JsonObject) : Bool :=
  state.get? "active_action_known" = some (.bool true)
    ∧ (state.get? "active_action_id").getD .null = .null
    ∧ state.get? "any_process_active" = some (.bool false)
    ∧ state.get? "pathing" = some (.bool false)

/-- `confirm_control_idle` reads the native state. -/
def sample (b : Body) (state : JsonObject) : Output × Body :=
  (.sampled b.confirms.length, { b with confirms := b.confirms ++ [{ state }] })

/-- The action ended without the native client, and nothing has come since. -/
def awaitsTerminal (pending : PendingAction) : Bool :=
  pending.done ∧ pending.lateTerminal.isNone
    ∧ pending.terminal.any fun event =>
        event.data.get? "terminal_source" = some (.str "python_transport")

/-- The candidates for a late terminal. -/
def candidates (b : Body) (c : Nat) : Output × Body :=
  match b.confirms[c]? with
  | some ⟨_, _, .sampled⟩ =>
      let ws := (b.pending.map Prod.snd).filter fun w =>
        (b.workers[w]?).any (awaitsTerminal ·.pending)
      (.nothing, b.onConfirm c fun confirm => { confirm with probe := .archiving ws })
  | _ => (.nothing, b)

section Late

variable (pyStr : Json → String)

/-- `str(payload.get(key))`. -/
def textOf (payload : JsonObject) (key : String) : String :=
  pyStr ((payload.get? key).getD .null)

/-- The event of a late terminal. -/
def lateEvent (botName : String) (action : Action) (payload : JsonObject) : Event :=
  let event := terminalEvent botName action
    ⟨action.id, textOf pyStr payload "status", textOf pyStr payload "reason", payload⟩
  { event with
    data := Dict.update event.data
      [("late_native_terminal", .bool true), ("advice_superseded", .bool true)] }

/-- `take_late_terminal`, for the next candidate. -/
def takeLate (b : Body) (c : Nat) (payload : Option JsonObject) : Output × Body :=
  match b.confirms[c]? with
  | some ⟨_, _, .archiving (w :: ws)⟩ =>
      match payload, b.workers[w]? with
      | some payload, some worker =>
          let event := lateEvent pyStr b.botName worker.pending.action payload
          (.nothing, b.onConfirm c fun confirm =>
            { confirm with lateFacts := some event.data, probe := .taken w event ws })
      | _, _ => (.nothing, b.onConfirm c fun confirm => { confirm with probe := .archiving ws })
  | _ => (.nothing, b)

end Late

/-- `_next_seq`, for a late terminal. -/
def drawLate (b : Body) (c : Nat) : Output × Body :=
  match b.confirms[c]? with
  | some ⟨_, _, .taken w event ws⟩ =>
      let b := { b with lastSeq := b.lastSeq + 1 }
      let event := { event with seq := b.lastSeq }
      (.nothing, b.onConfirm c fun confirm => { confirm with probe := .storing w event ws })
  | _ => (.nothing, b)

/-- A late terminal is logged. It is not queued. -/
def storeLate (b : Body) (c : Nat) : Output × Body :=
  match b.confirms[c]? with
  | some ⟨_, _, .storing w event ws⟩ =>
      let b := { b with eventLog := b.eventLog ++ [event] }
      (.nothing, (b.onWorker w fun worker =>
          { worker with pending := { worker.pending with lateTerminal := some event } }).onConfirm c
        fun confirm => { confirm with probe := .archiving ws })
  | _ => (.nothing, b)

/-- The active action has ended, as far as its worker goes. -/
def activeDone (b : Body) : Bool :=
  (b.active.bind (b.workers[·]?)).any (·.pending.done)

/-- The last section of `confirm_control_idle`. -/
def conclude (b : Body) (c : Nat) : Output × Body :=
  match b.confirms[c]? with
  | some ⟨state, lateFacts, .archiving []⟩ =>
      let b := b.onConfirm c fun confirm => { confirm with probe := .ended }
      (.idle
        { nativeStopped := stopped state
          controlUnknown := !stopped state
          activeActionId := (state.get? "active_action_id").getD .null
          sampledAtMs := (state.get? "sampled_at_ms").getD .null
          lateNativeTerminal := lateFacts },
        if stopped state then
          { b with
            controlUnknown := false
            active := if b.activeDone then none else b.active }
        else b)
  | _ => (.nothing, b)

end Body

/-! ## Steps -/

/-- One step of one thread. -/
def step (py : Python) (pyStr : Json → String) (b : Body) : Input → Output × Body
  | .execute action => b.execute py action
  | .observerError w => b.observerError w
  | .answer w exchange => b.answer w exchange
  | .draw w => b.draw w
  | .settle w => b.settle w
  | .lifecycle payload => b.onLifecycleEvent payload
  | .poll => b.pollEvents
  | .sample state => b.sample state
  | .candidates c => b.candidates c
  | .takeLate c payload => b.takeLate pyStr c payload
  | .drawLate c => b.drawLate c
  | .storeLate c => b.storeLate c
  | .conclude c => b.conclude c

/-- What a run has recorded. -/
abbrev Log := List (Input × Output)

namespace Body

variable {b : Body} {w c : Nat}

@[simp] theorem onWorker_eventQueue (f : Worker → Worker) :
    (b.onWorker w f).eventQueue = b.eventQueue := rfl

@[simp] theorem onWorker_lastSeq (f : Worker → Worker) : (b.onWorker w f).lastSeq = b.lastSeq := rfl

@[simp] theorem onWorker_lifecycleSeen (f : Worker → Worker) :
    (b.onWorker w f).lifecycleSeen = b.lifecycleSeen := rfl

@[simp] theorem onWorker_active (f : Worker → Worker) : (b.onWorker w f).active = b.active := rfl

@[simp] theorem onWorker_confirms (f : Worker → Worker) :
    (b.onWorker w f).confirms = b.confirms := rfl

@[simp] theorem onWorker_workers (f : Worker → Worker) :
    (b.onWorker w f).workers = b.workers.modify w f := rfl

@[simp] theorem onConfirm_workers (f : Confirm → Confirm) :
    (b.onConfirm c f).workers = b.workers := rfl

@[simp] theorem onConfirm_eventQueue (f : Confirm → Confirm) :
    (b.onConfirm c f).eventQueue = b.eventQueue := rfl

@[simp] theorem onConfirm_lastSeq (f : Confirm → Confirm) :
    (b.onConfirm c f).lastSeq = b.lastSeq := rfl

@[simp] theorem onConfirm_lifecycleSeen (f : Confirm → Confirm) :
    (b.onConfirm c f).lifecycleSeen = b.lifecycleSeen := rfl

@[simp] theorem onConfirm_active (f : Confirm → Confirm) :
    (b.onConfirm c f).active = b.active := rfl

@[simp] theorem onConfirm_confirms (f : Confirm → Confirm) :
    (b.onConfirm c f).confirms = b.confirms.modify c f := rfl

/-! What each section can do -/

theorem execute_cases (py : Python) (action : Action) :
    (∃ o, b.execute py action = (o, b) ∧ (∀ w route data, o ≠ .accepted w route data) ∧
      ∀ events, o ≠ .polled events) ∨
    ∃ route, b.execute py action =
        (.accepted b.workers.length route (acceptedData action route), { b with
          active := if route.control.isNone then some b.workers.length else b.active
          pending := b.pending.set action.id b.workers.length
          workers := b.workers ++ [{ pending := { action }, route }] }) ∧
      (route.control = none → b.active = none ∧ b.controlUnknown = false) := by
  unfold execute
  cases hroute : routeOf py action with
  | error error => exact .inl ⟨_, rfl, by simp, by simp⟩
  | ok route =>
      dsimp only
      split
      · exact .inl ⟨_, rfl, by simp [gap], by simp [gap]⟩
      · split
        · exact .inl ⟨_, rfl, by simp [gap], by simp [gap]⟩
        · next hbusy =>
            split
            · exact .inl ⟨_, rfl, by simp [gap], by simp [gap]⟩
            · next hunknown =>
                refine .inr ⟨route, rfl, fun hcontrol => ?_⟩
                simp only [hcontrol, Option.any_none, Bool.not_false, and_true, Option.isNone_none,
                  true_and, Bool.not_eq_true, Option.isSome_eq_false_iff, Option.isNone_iff_eq_none]
                  at hbusy hunknown
                exact ⟨hbusy, hunknown⟩

theorem observerError_cases (w : Nat) : b.observerError w = (.nothing, b) ∨
    ∃ worker, b.workers[w]? = some worker ∧ worker.phase = .waiting ∧
      b.observerError w = (.nothing, b.onWorker w fun worker =>
        { worker with pending :=
            { worker.pending with observerErrors := worker.pending.observerErrors + 1 } }) := by
  unfold observerError
  split
  · next hworker => exact .inr ⟨_, hworker, rfl, rfl⟩
  · exact .inl rfl

theorem answer_cases (w : Nat) (exchange : Exchange) : b.answer w exchange = (.nothing, b) ∨
    ∃ worker event, b.workers[w]? = some worker ∧ worker.phase = .waiting ∧
      eventOf b.botName worker.pending.action worker.route.control exchange = some event ∧
      b.answer w exchange
        = (.answered, b.onWorker w fun worker => { worker with phase := .answered event }) := by
  unfold answer
  split
  · next hworker =>
      split
      · next event hevent => exact .inr ⟨_, event, hworker, rfl, hevent, rfl⟩
      · exact .inl rfl
  · exact .inl rfl

theorem draw_cases (w : Nat) : b.draw w = (.nothing, b) ∨
    ∃ worker event, b.workers[w]? = some worker ∧ worker.phase = .answered event ∧
      b.draw w = (.nothing, { b with lastSeq := b.lastSeq + 1 }.onWorker w fun worker =>
        { worker with phase := .numbered { event with seq := b.lastSeq + 1 } }) := by
  unfold draw
  split
  · next event hworker => exact .inr ⟨_, event, hworker, rfl, rfl⟩
  · exact .inl rfl

theorem settle_cases (w : Nat) : b.settle w = (.nothing, b) ∨
    ∃ worker event, b.workers[w]? = some worker ∧ worker.phase = .numbered event ∧
      let event := withObserverErrors event worker.pending.observerErrors
      (b.settle w).1 = .settled event ∧
      (b.settle w).2.workers = b.workers.modify w (ended event) ∧
      (b.settle w).2.eventQueue = b.eventQueue ++ [event] ∧
      (b.settle w).2.lastSeq = b.lastSeq ∧ (b.settle w).2.lifecycleSeen = b.lifecycleSeen ∧
      (b.settle w).2.confirms = b.confirms ∧
      (b.settle w).2.active
        = if b.active = some w ∧ leavesControlUnknown event = false then none else b.active := by
  unfold settle
  split
  · next pending route event hworker =>
      refine .inr ⟨_, event, hworker, rfl, rfl, ?_⟩
      dsimp only [onWorker]
      split
      · split
        · next hactive hunknown => simp [hunknown]
        · next hactive hknown => simp [hknown, hactive]
      · next hactive => simp [hactive]
  · exact .inl rfl

theorem candidates_cases (c : Nat) : b.candidates c = (.nothing, b) ∨
    ∃ f, (∀ confirm : Confirm, (f confirm).state = confirm.state) ∧
      b.candidates c = (.nothing, b.onConfirm c f) := by
  unfold candidates
  split
  · refine .inr ⟨_, ?_, rfl⟩
    exact fun _ => rfl
  · exact .inl rfl

theorem takeLate_cases (pyStr : Json → String) (c : Nat) (payload : Option JsonObject) :
    b.takeLate pyStr c payload = (.nothing, b) ∨
    ∃ f, (∀ confirm : Confirm, (f confirm).state = confirm.state) ∧
      b.takeLate pyStr c payload = (.nothing, b.onConfirm c f) := by
  unfold takeLate
  split
  · split
    · refine .inr ⟨_, ?_, rfl⟩
      exact fun _ => rfl
    · refine .inr ⟨_, ?_, rfl⟩
      exact fun _ => rfl
  · exact .inl rfl

theorem drawLate_cases (c : Nat) : b.drawLate c = (.nothing, b) ∨
    ∃ f, (∀ confirm : Confirm, (f confirm).state = confirm.state) ∧
      b.drawLate c = (.nothing, { b with lastSeq := b.lastSeq + 1 }.onConfirm c f) := by
  unfold drawLate
  split
  · refine .inr ⟨_, ?_, rfl⟩
    exact fun _ => rfl
  · exact .inl rfl

theorem storeLate_cases (c : Nat) : b.storeLate c = (.nothing, b) ∨
    ∃ w event f, (∀ confirm : Confirm, (f confirm).state = confirm.state) ∧
      b.storeLate c = (.nothing, ({ b with eventLog := b.eventLog ++ [event] }.onWorker w
        fun worker => { worker with pending := { worker.pending with lateTerminal := some event } })
          |>.onConfirm c f) := by
  unfold storeLate
  split
  · next w event ws _ =>
      refine .inr ⟨w, event, _, ?_, rfl⟩
      exact fun _ => rfl
  · exact .inl rfl

theorem conclude_cases (c : Nat) : b.conclude c = (.nothing, b) ∨
    ∃ confirm facts f, b.confirms[c]? = some confirm ∧ confirm.probe = .archiving [] ∧
      (∀ confirm : Confirm, (f confirm).state = confirm.state) ∧
      (b.conclude c).1 = .idle facts ∧ (b.conclude c).2.workers = b.workers ∧
      (b.conclude c).2.eventQueue = b.eventQueue ∧ (b.conclude c).2.lastSeq = b.lastSeq ∧
      (b.conclude c).2.lifecycleSeen = b.lifecycleSeen ∧
      (b.conclude c).2.confirms = b.confirms.modify c f ∧
      (b.conclude c).2.active
        = if stopped confirm.state ∧ b.activeDone then none else b.active := by
  unfold conclude
  split
  · next state lateFacts hconfirm =>
      refine .inr ⟨_, _, fun confirm => { confirm with probe := .ended }, hconfirm, rfl,
        fun _ => rfl, rfl, ?_⟩
      dsimp only [onConfirm]
      split
      · next hstopped => simp [hstopped, activeDone]
      · next hstopped => simp [hstopped]
  · exact .inl rfl

end Body

/-! ## Workers -/

/-- The step is not one that ends the exchange of the worker, nor its last
section. -/
def Quiet (w : Nat) (i : Input) (o : Output) : Prop :=
  (∀ exchange, (i, o) ≠ (.answer w exchange, .answered)) ∧
    ∀ event, (i, o) ≠ (.settle w, .settled event)

/-- What a step from `b` to `b'` does to the worker `w`. -/
inductive Advance (b b' : Body) (w : Nat) (i : Input) (o : Output) : Worker → Worker → Prop where
  | keep {x x' : Worker} : x'.phase = x.phase → x'.route = x.route →
      x'.pending.action = x.pending.action → x'.pending.terminal = x.pending.terminal →
      x'.pending.done = x.pending.done → Quiet w i o → Advance b b' w i o x x'
  | answer {x : Worker} {exchange : Exchange} {event : Event} :
      i = .answer w exchange → o = .answered → x.phase = .waiting →
      Body.eventOf b.botName x.pending.action x.route.control exchange = some event →
      Advance b b' w i o x { x with phase := .answered event }
  | draw {x : Worker} {event : Event} : i = .draw w → x.phase = .answered event →
      b'.lastSeq = b.lastSeq + 1 →
      Advance b b' w i o x { x with phase := .numbered { event with seq := b.lastSeq + 1 } }
  | settle {x : Worker} {event : Event} : x.phase = .numbered event → i = .settle w →
      o = .settled (Body.withObserverErrors event x.pending.observerErrors) →
      Advance b b' w i o x (Body.ended (Body.withObserverErrors event x.pending.observerErrors) x)

section Workers

variable {b : Body} {w : Nat} {x x' : Worker}

/-- What a step does to the workers as a whole: it leaves them, changes one
of them, or adds one. -/
theorem step_workers (py : Python) (pyStr : Json → String) (b : Body) (i : Input) :
    ((step py pyStr b i).2.workers = b.workers ∧ ∀ w, Quiet w i (step py pyStr b i).1) ∨
    (∃ v y f, b.workers[v]? = some y ∧ (step py pyStr b i).2.workers = b.workers.modify v f ∧
      Advance b (step py pyStr b i).2 v i (step py pyStr b i).1 y (f y) ∧
      ∀ w, w ≠ v → Quiet w i (step py pyStr b i).1) ∨
    (∃ v f, b.workers[v]? = none ∧ (step py pyStr b i).2.workers = b.workers.modify v f ∧
      ∀ w, Quiet w i (step py pyStr b i).1) ∨
    ∃ action route, i = .execute action ∧
      (step py pyStr b i).1 = .accepted b.workers.length route (Body.acceptedData action route) ∧
      (step py pyStr b i).2.workers = b.workers ++ [{ pending := { action }, route }] := by
  cases i with
  | execute action =>
      rcases b.execute_cases py action with ⟨o, h, -⟩ | ⟨route, h, -⟩
      · exact .inl ⟨by rw [step, h], fun w => ⟨by simp, by simp⟩⟩
      · exact .inr (.inr (.inr ⟨action, route, rfl, by rw [step, h], by rw [step, h]⟩))
  | observerError v =>
      rcases b.observerError_cases v with h | ⟨y, hy, hphase, h⟩
      · exact .inl ⟨by rw [step, h], fun w => ⟨by simp, by simp⟩⟩
      · exact .inr (.inl ⟨v, y, _, hy, by rw [step, h, Body.onWorker_workers],
          .keep rfl rfl rfl rfl rfl ⟨by simp, by simp⟩, fun w _ => ⟨by simp, by simp⟩⟩)
  | answer v exchange =>
      rcases b.answer_cases v exchange with h | ⟨y, event, hy, hphase, hevent, h⟩
      · exact .inl ⟨by rw [step, h], fun w => ⟨by simp [step, h], by simp⟩⟩
      · exact .inr (.inl ⟨v, y, _, hy, by rw [step, h, Body.onWorker_workers],
          .answer rfl (congrArg Prod.fst h) hphase hevent,
          fun w hw => ⟨by simp [Ne.symm hw], by simp⟩⟩)
  | draw v =>
      rcases b.draw_cases v with h | ⟨y, event, hy, hphase, h⟩
      · exact .inl ⟨by rw [step, h], fun w => ⟨by simp, by simp⟩⟩
      · exact .inr (.inl ⟨v, y, _, hy, by rw [step, h, Body.onWorker_workers],
          .draw rfl hphase (congrArg (·.2.lastSeq) h), fun w _ => ⟨by simp, by simp⟩⟩)
  | settle v =>
      rcases b.settle_cases v with h | ⟨y, event, hy, hphase, hout, hworkers, -⟩
      · exact .inl ⟨by rw [step, h], fun w => ⟨by simp, by simp [step, h]⟩⟩
      · exact .inr (.inl ⟨v, y, _, hy, hworkers, .settle hphase rfl hout,
          fun w hw => ⟨by simp, by simp [Ne.symm hw]⟩⟩)
  | lifecycle payload =>
      refine .inl ⟨?_, fun w => ⟨by simp, by simp⟩⟩
      simp only [step, Body.onLifecycleEvent]
      split
      · rfl
      · rfl
  | poll => exact .inl ⟨rfl, fun w => ⟨by simp, by simp⟩⟩
  | sample state => exact .inl ⟨rfl, fun w => ⟨by simp, by simp⟩⟩
  | candidates c =>
      rcases b.candidates_cases c with h | ⟨f, -, h⟩
      · exact .inl ⟨by rw [step, h], fun w => ⟨by simp, by simp⟩⟩
      · exact .inl ⟨by rw [step, h, Body.onConfirm_workers], fun w => ⟨by simp, by simp⟩⟩
  | takeLate c payload =>
      rcases b.takeLate_cases pyStr c payload with h | ⟨f, -, h⟩
      · exact .inl ⟨by rw [step, h], fun w => ⟨by simp, by simp⟩⟩
      · exact .inl ⟨by rw [step, h, Body.onConfirm_workers], fun w => ⟨by simp, by simp⟩⟩
  | drawLate c =>
      rcases b.drawLate_cases c with h | ⟨f, -, h⟩
      · exact .inl ⟨by rw [step, h], fun w => ⟨by simp, by simp⟩⟩
      · exact .inl ⟨by rw [step, h, Body.onConfirm_workers], fun w => ⟨by simp, by simp⟩⟩
  | storeLate c =>
      rcases b.storeLate_cases c with h | ⟨v, event, f, -, h⟩
      · exact .inl ⟨by rw [step, h], fun w => ⟨by simp, by simp⟩⟩
      · have hworkers : (step py pyStr b (.storeLate c)).2.workers = b.workers.modify v
            fun worker => { worker with pending :=
              { worker.pending with lateTerminal := some event } } := by
          rw [step, h, Body.onConfirm_workers, Body.onWorker_workers]
        cases hy : b.workers[v]? with
        | none => exact .inr (.inr (.inl ⟨v, _, hy, hworkers, fun w => ⟨by simp, by simp⟩⟩))
        | some y =>
            exact .inr (.inl ⟨v, y, _, hy, hworkers,
              .keep rfl rfl rfl rfl rfl ⟨by simp, by simp⟩, fun w _ => ⟨by simp, by simp⟩⟩)
  | conclude c =>
      rcases b.conclude_cases c with h | ⟨confirm, facts, f, -, -, -, hout, hworkers, -⟩
      · exact .inl ⟨by rw [step, h], fun w => ⟨by simp, by simp⟩⟩
      · exact .inl ⟨hworkers, fun w => ⟨by simp, by simp⟩⟩

/-- What a step does to a worker that is there. -/
theorem step_worker (py : Python) (pyStr : Json → String) (i : Input)
    (hx : b.workers[w]? = some x) :
    ∃ x', (step py pyStr b i).2.workers[w]? = some x' ∧
      Advance b (step py pyStr b i).2 w i (step py pyStr b i).1 x x' := by
  rcases step_workers py pyStr b i with ⟨h, hquiet⟩ | ⟨v, y, f, hy, h, hadvance, hquiet⟩ |
    ⟨v, f, hv, h, hquiet⟩ | ⟨action, route, hi, ho, h⟩
  · exact ⟨x, by rw [h, hx], .keep rfl rfl rfl rfl rfl (hquiet w)⟩
  · by_cases hw : w = v
    · subst hw
      obtain rfl := Option.some.inj (hy.symm.trans hx)
      exact ⟨f y, by rw [h, List.getElem?_modify_eq, hx]; rfl, hadvance⟩
    · exact ⟨x, by rw [h, List.getElem?_modify_ne f _ (Ne.symm hw), hx],
        .keep rfl rfl rfl rfl rfl (hquiet w hw)⟩
  · have hw : v ≠ w := fun hw => by
      rw [hw, hx] at hv
      cases hv
    exact ⟨x, by rw [h, List.getElem?_modify_ne f _ hw, hx],
      .keep rfl rfl rfl rfl rfl (hquiet w)⟩
  · refine ⟨x, ?_, .keep rfl rfl rfl rfl rfl ⟨by simp [hi], by simp [hi]⟩⟩
    rw [h, List.getElem?_append_left (List.getElem?_eq_some_iff.mp hx).1, hx]

/-- A worker that was not there has just been accepted. -/
theorem step_new_worker (py : Python) (pyStr : Json → String) (i : Input)
    (hx : b.workers[w]? = none) (hx' : (step py pyStr b i).2.workers[w]? = some x') :
    ∃ action route data, i = .execute action ∧ (step py pyStr b i).1 = .accepted w route data ∧
      w = b.workers.length ∧ x' = { pending := { action }, route } := by
  have hmodify : ∀ v f, (b.workers.modify v f)[w]? = none := by
    intro v f
    rw [List.getElem?_modify, hx]
    rfl
  rcases step_workers py pyStr b i with ⟨h, -⟩ | ⟨v, y, f, -, h, -⟩ | ⟨v, f, -, h, -⟩ |
    ⟨action, route, hi, ho, h⟩
  · rw [h, hx] at hx'
    cases hx'
  · rw [h, hmodify] at hx'
    cases hx'
  · rw [h, hmodify] at hx'
    cases hx'
  · have hlen := List.getElem?_eq_none_iff.mp hx
    rw [h, List.getElem?_append_right hlen] at hx'
    obtain ⟨hw, hx'⟩ := List.getElem?_eq_some_iff.mp hx'
    have hw : w = b.workers.length := by
      rw [List.length_singleton] at hw
      omega
    refine ⟨action, route, _, hi, hw ▸ ho, hw, ?_⟩
    rw [← hx']
    exact List.mem_singleton.mp (List.getElem_mem _)

end Workers

/-! ## A sample action -/

/-- `float` and `str`, where neither is called. -/
def plainPython : Python := ⟨fun _ => .error .valueError, fun _ => ""⟩

/-- An action that explores around a place. -/
def exploreAction (id : String) : Action :=
  { id
    name := "explore"
    params := [("anchor", .arr [.int 0, .int 64, .int 0])] }

end RealClient

end MineBot
