import MineBot.History
import MineBot.WorkPlan

/-!
# The plan executor

`WorkPlanExecutor` walks the tree of a plan and keeps a record for each node
it enters. The walk is a machine: a stack of frames, one for each `_execute`
that has not returned, and a control that says what the top frame does next.
One step is the code between two awaits or less: it enters a node, hands a
status to the frame below, goes on with the top frame, or takes what the
frame has awaited. The answers of the tools, of the Body, of Decision and of
the clock are the inputs.

Records are objects, as in Python: a frame holds the object it found or made,
and the store maps keys to objects.
-/

namespace MineBot

namespace WorkRuntime

/-! ## Records -/

inductive NodeStatus where
  | pending
  | active
  | waiting
  | blocked
  | done
  | cancelled
deriving DecidableEq

structure Blocked where
  reason : String
  previousResult : Option JsonObject
deriving DecidableEq

structure DecisionFacts where
  toolResult : JsonObject
  toolArguments : Json
  bodyState : Json
  bodyBefore : Json

/-- A suspended call: its interrupt handler, by attempt and whether the
handler is done, or an equipment action. -/
inductive Interruption where
  | handler (attempt : Nat) (handled : Bool)
  | equipment (item : String) (timeoutS : Option Rat)

structure NodeRecord where
  status : NodeStatus
  result : Option JsonObject
  delivered : Option Json
  blocked : Option Blocked
  signature : Option Json
  startedAt : Option Rat
  decisionFacts : Option DecisionFacts
  decisionPending : Bool
  decisionReads : Nat
  unknownStreak : Nat
  repeatCount : Nat
  choiceId : Option String
  interruption : Option Interruption

/-- `NodeRecord(signature=signature)`. -/
def NodeRecord.new (signature : Json) : NodeRecord :=
  ⟨.pending, none, none, none, some signature, none, none, false, 0, 0, 0, none, none⟩

/-- The record of a delivered call whose obligation was changed. -/
def NodeRecord.changed (signature : Json) (previous : NodeRecord) : NodeRecord :=
  { NodeRecord.new signature with
    status := .blocked
    blocked := some ⟨"completed_obligation_changed", previous.result⟩ }

/-- The record objects, and the one each key is mapped to. -/
structure Store where
  objects : List NodeRecord
  records : Dict String Nat

namespace Store

/-- The store of a dictionary of records. -/
def ofRecords (records : Dict String NodeRecord) : Store :=
  ⟨records.map Prod.snd, (records.map Prod.fst).zipIdx⟩

def object (store : Store) (ref : Nat) : NodeRecord :=
  store.objects[ref]?.getD (NodeRecord.new .null)

def record? (store : Store) (key : String) : Option NodeRecord :=
  (store.records.get? key).map store.object

def modify (store : Store) (ref : Nat) (f : NodeRecord → NodeRecord) : Store :=
  { store with objects := store.objects.modify ref f }

/-- `self.records[key] = record`, for a new object. -/
def put (store : Store) (key : String) (record : NodeRecord) : Store :=
  ⟨store.objects ++ [record], store.records.set key store.objects.length⟩

end Store

/-! ## Frames -/

/-- A step of the path to a node. The handler of an interrupt and the equip
call belong to one invocation of a call, named by its key. -/
inductive PathStep where
  | step (index : Nat)
  | item (index : Nat)
  | option (id : String)
  | interrupt (callId : String) (attempt : Nat)
  | equipment (callId : String)
deriving DecidableEq

/-- Where a node stands, the last step first. -/
abbrev Path := List PathStep

/-- The arguments of an `_execute`. -/
structure Dispatch where
  node : WorkNode
  path : Path
  item : Json

/-- What a frame does, or waits for. -/
inductive Phase where
  | condition
  | body
  | callState
  | tool (callState arguments : Json)
  | decisionState (callState arguments : Json) (result : JsonObject)
  | judge
  | decision
  | inspect
  | handler (attempt : Nat)
  | handlerState
  | handlerChoice
  | equipment
  | steps (next : Nat)
  | items (next : Nat)
  | choosing
  | option (id : String)
  | adaptive (remaining : List Json)
  | waiting

structure Frame where
  node : WorkNode
  path : Path
  item : Json
  key : String
  baseKey : String
  ref : Nat
  invocation : Nat
  phase : Phase

/-- What an await raises. -/
inductive Exc where
  | planError
  | cancelled (requested : Bool)
  | timeout
  | other
deriving DecidableEq

inductive Control where
  | idle
  | enter (dispatch : Dispatch)
  | returning (status : NodeStatus)
  | resume
  | awaiting
  | raising (exc : Exc)

/-- What a new executor gets, and what it keeps from one `run` to the next. -/
structure Executor where
  plan : WorkPlan
  judged : Bool
  deadline : Rat
  results : JsonObject
  legacyOccurrences : Dict String Nat
  repeatHistory : Dict String (List String)

structure State where
  store : Store
  executor : Executor
  stack : List Frame
  control : Control

/-! ## Inputs and events -/

inductive Reply where
  /-- a new executor over the same records -/
  | construct (plan : WorkPlan) (judged : Bool)
  | run
  /-- the code goes on without an await -/
  | proceed
  | state (reply : Except Exc Json)
  | result (reply : Except Exc JsonObject)
  | choice (reply : Except Exc String)
  | answers (reply : Except Exc (List String))
  /-- the time of the `wait_for` in the frame at this depth is up -/
  | expire (depth : Nat)

/-- An input, and the clock at it. -/
structure Input where
  reply : Reply
  now : Rat

inductive Event where
  /-- a node is looked up under its key -/
  | entered (path : Path) (key : String) (signature : Json)
  /-- a call goes into its next invocation, under a new key -/
  | repeated (path : Path) (baseKey key : String)
  | dispatched (path : Path) (baseKey callId tool : String) (arguments item : Json)
  /-- a call ends with the choice `next_step` -/
  | ended (path : Path) (baseKey callId : String)
  | chose (path : Path) (id : String)
  /-- an attempt of an interrupt handler begins -/
  | interrupted (path : Path)
  /-- the handler of an interrupt is done -/
  | handled (path : Path)
  | finished (status : NodeStatus)
  | raised

/-- What the rest of the program decides for a call: the choices its result
question offers, the equipment it may choose, and the digest of a signature. -/
structure Questions where
  callOptions : WorkNode → Option DecisionFacts → List String
  equipmentCandidates : Option DecisionFacts → Dict String String
  digest : Json → String

abbrev Outcome := List Event × State

namespace State

variable (s : State)

/-- The top frame goes on as `frame`, with its record changed by `f`. -/
def goOn (frame : Frame) (rest : List Frame) (f : NodeRecord → NodeRecord) (control : Control) :
    State :=
  { s with store := s.store.modify frame.ref f, stack := frame :: rest, control }

/-- The top frame returns, with its record changed by `f`. -/
def leave (frame : Frame) (rest : List Frame) (f : NodeRecord → NodeRecord) (status : NodeStatus) :
    State :=
  { s with store := s.store.modify frame.ref f, stack := rest, control := .returning status }

end State

/-- The record becomes blocked. -/
def NodeRecord.block (reason : String) (record : NodeRecord) : NodeRecord :=
  { record with status := .blocked, blocked := some ⟨reason, none⟩ }

def NodeRecord.setStatus (status : NodeStatus) (record : NodeRecord) : NodeRecord :=
  { record with status }

section

variable (questions : Questions)

/-! ## Entering a node -/

/-- The key of a node, and the occurrences of signatures after it. -/
def nodeKey (node : WorkNode) (executor : Executor) : String × Executor :=
  match node.head.id with
  | some id =>
      if id ≠ "" then (id, executor)
      else legacy executor
  | none => legacy executor
where
  legacy (executor : Executor) : String × Executor :=
    let signature := nodeSignature node
    let digest := questions.digest signature
    let occurrence := (executor.legacyOccurrences.get? digest).getD 0
    (legacyNodeKey questions.digest signature occurrence,
      { executor with legacyOccurrences := executor.legacyOccurrences.set digest (occurrence + 1) })

/-- The node is not done: its record becomes active and its frame is pushed. -/
def openFrame (d : Dispatch) (key : String) (ref : Nat) (now : Rat) (s : State) : State :=
  let frame : Frame := ⟨d.node, d.path, d.item, key, key, ref, 0,
    if d.node.head.when.isSome then .condition else .body⟩
  s.goOn frame s.stack
    (fun record => { record with status := .active, startedAt := record.startedAt.or (some now) })
    (if d.node.head.when.isSome then .awaiting else .resume)

/-- The start of `_execute`, up to the condition. -/
def enterNode (d : Dispatch) (now : Rat) (s : State) : Outcome :=
  let signature := nodeSignature d.node
  let (key, executor) := nodeKey questions d.node s.executor
  let s := { s with executor }
  let events := [Event.entered d.path key signature]
  let fresh := openFrame d key s.store.objects.length now
    { s with store := s.store.put key (NodeRecord.new signature) }
  match s.store.records.get? key with
  | none => (events, fresh)
  | some ref =>
      let record := s.store.object ref
      if record.signature ≠ some signature then
        if record.status = .done ∧ d.node.isCall ∧ record.delivered.isSome then
          (events, { s with
            store := s.store.put key (NodeRecord.changed signature record)
            control := .returning .blocked })
        else (events, fresh)
      else if record.status = .done then
        (events, { s with
          executor := { s.executor with
            results := match record.result with
            | some result => s.executor.results.set key (.obj result)
            | none => s.executor.results }
          control := .returning .done })
      else (events, openFrame d key ref now s)

/-! ## Calls -/

/-- The time a call's `wait_for` has: the plan's deadline, and the node's. -/
def callDeadline (frame : Frame) (s : State) : Rat :=
  match frame.node.head.timeoutS, (s.store.object frame.ref).startedAt with
  | some seconds, some started => min s.executor.deadline (started + seconds)
  | _, _ => s.executor.deadline

/-- The key of a later invocation. -/
def repeatKey (baseKey : String) (invocation : Nat) : String :=
  s!"{baseKey}__repeat_{invocation}"

/-- The equip call that an equipment choice makes of a call. -/
def equipCall (key item : String) (timeoutS : Rat) : WorkNode :=
  .call ⟨some s!"{key}__equip", none, some timeoutS, []⟩ "equip_item"
    (.obj [("item", .str item), ("target", .str "mainhand")])

/-- The handler of an attempt. -/
def handlerCall (handler : WorkNode) (key : String) (attempt : Nat) : WorkNode :=
  handler.namespaced s!"{key}__interrupt_{attempt}__"

/-- The call goes into its next invocation. -/
def reenter (frame : Frame) (rest : List Frame) (now : Rat) (s : State) : Outcome :=
  let baseRef := (s.store.records.get? frame.baseKey).getD frame.ref
  let s := { s with store := s.store.modify baseRef fun record =>
    { record with repeatCount := record.repeatCount + 1 } }
  if s.executor.deadline ≤ now then
    ([], s.leave frame rest (NodeRecord.block "plan_timeout") .blocked)
  else
    let invocation := frame.invocation + 1
    let key := repeatKey frame.baseKey invocation
    let history := (s.executor.repeatHistory.get? frame.baseKey).getD [] ++ [key]
    let old := history.take (history.length - 3)
    let store : Store := { s.store with records := old.foldl Dict.pop s.store.records }
    ([.repeated frame.path frame.baseKey key],
      { s with
        store := store.put key (NodeRecord.new (nodeSignature frame.node))
        executor := { s.executor with
          results := old.foldl Dict.pop s.executor.results
          repeatHistory := s.executor.repeatHistory.set frame.baseKey history }
        stack := { frame with key, ref := store.objects.length, invocation, phase := .body } :: rest
        control := .resume })

/-- `_handle_equipment`. -/
def handleEquipment (frame : Frame) (rest : List Frame) (item : String) (timeoutS : Option Rat)
    (now : Rat) (s : State) : Outcome :=
  let remaining := callDeadline frame s - now
  if remaining ≤ 0 then ([], s.leave frame rest (NodeRecord.block "node_timeout") .blocked)
  else
    let timeoutS := timeoutS.getD remaining
    ([], s.goOn { frame with phase := .equipment } rest
      (fun record => { record with interruption := some (.equipment item (some timeoutS)) })
      (.enter ⟨equipCall frame.key item timeoutS, .equipment frame.key :: frame.path, frame.item⟩))

/-- `_handle_interrupt`, up to the handler or to the question on its result. -/
def handleInterrupt (frame : Frame) (rest : List Frame) (attempt : Nat) (handled : Bool) (now : Rat)
    (s : State) : Outcome :=
  match s.executor.plan.handler with
  | none => ([], { s with control := .raising .planError })
  | some handler =>
      if callDeadline frame s ≤ now then
        ([], s.leave frame rest (NodeRecord.block "node_timeout") .blocked)
      else if handled then ([], s.goOn { frame with phase := .handlerState } rest id .awaiting)
      else
        ([], s.goOn { frame with phase := .handler attempt } rest id
          (.enter ⟨handlerCall handler frame.key attempt,
            .interrupt frame.key attempt :: frame.path, frame.item⟩))

/-- An attempt of the handler begins. -/
def beginAttempt (frame : Frame) (rest : List Frame) (attempt : Nat) (now : Rat) (s : State) :
    Outcome :=
  let s := s.goOn frame rest
    (fun record => { record with interruption := some (.handler attempt false) }) s.control
  ([.interrupted (.interrupt frame.key attempt :: frame.path)],
    (handleInterrupt frame rest attempt false now s).2)

/-- `_apply_call_choice`. -/
def applyCallChoice (frame : Frame) (rest : List Frame) (choice blockReason : String) (now : Rat)
    (s : State) : Outcome :=
  match choice with
  | "step_done" | "next_step" =>
      ([.ended frame.path frame.baseKey frame.key],
        s.leave frame rest (fun record => { record with decisionPending := false, status := .done })
          .done)
  | "call_agent" =>
      ([], s.leave frame rest
        (fun record => { record.block blockReason with decisionPending := false }) .blocked)
  | "repeat" =>
      reenter frame rest now (s.goOn frame rest
        (fun record => { record with decisionPending := false, status := .active }) s.control)
  | _ =>
      ([], s.leave frame rest
        (fun record => { record with decisionPending := true, status := .waiting }) .waiting)

/-- The answer is not to be had. -/
def decisionUnknown (frame : Frame) (rest : List Frame) (s : State) : Outcome :=
  ([], s.leave frame rest
    (fun record => { record with decisionPending := true, status := .waiting }) .waiting)

/-- A known choice: an equipment it selects, or what it says. -/
def takeCallChoice (frame : Frame) (rest : List Frame) (choice : String) (now : Rat) (s : State) :
    Outcome :=
  let s := s.goOn frame rest (fun record => { record with unknownStreak := 0 }) s.control
  match (questions.equipmentCandidates (s.store.object frame.ref).decisionFacts).get? choice with
  | some item =>
      handleEquipment frame rest item none now (s.goOn frame rest (fun record =>
        { record with decisionPending := false, interruption := some (.equipment item none) })
        s.control)
  | none => applyCallChoice frame rest choice "decision_call_agent" now s

/-- A choice of the result judge. -/
def judgeChoice (frame : Frame) (rest : List Frame) (choice : String) (now : Rat) (s : State) :
    Outcome :=
  if choice = "unknown" then
    decisionUnknown frame rest (s.goOn frame rest
      (fun record => { record with unknownStreak := record.unknownStreak + 1 }) s.control)
  else takeCallChoice questions frame rest choice now s

/-- `MAX_NODE_UNKNOWN_STREAK`. -/
def maxNodeUnknownStreak : Nat := 3

/-- A choice of Decision. -/
def decisionChoice (frame : Frame) (rest : List Frame) (choice : String) (now : Rat) (s : State) :
    Outcome :=
  let record := s.store.object frame.ref
  if choice = "inspect" ∧ record.decisionReads < 4 then
    ([], s.goOn { frame with phase := .inspect } rest
      (fun record => { record with decisionReads := record.decisionReads + 1 }) .awaiting)
  else if choice = "inspect" ∨ choice = "unknown" then
    let s := s.goOn frame rest
      (fun record => { record with unknownStreak := record.unknownStreak + 1 }) s.control
    if maxNodeUnknownStreak ≤ record.unknownStreak + 1 then
      applyCallChoice frame rest "call_agent" "decision_unknown_limit" now s
    else decisionUnknown frame rest s
  else takeCallChoice questions frame rest choice now s

/-- `_decide_call`, up to its question. -/
def decideCall (frame : Frame) (rest : List Frame) (now : Rat) (s : State) : Outcome :=
  if s.executor.judged then ([], s.goOn { frame with phase := .judge } rest id .awaiting)
  else
    match questions.callOptions frame.node (s.store.object frame.ref).decisionFacts with
    | [choice] => decisionChoice questions frame rest choice now s
    | _ => ([], s.goOn { frame with phase := .decision } rest id .awaiting)

/-- One round of the loop over a call. -/
def callRound (frame : Frame) (rest : List Frame) (now : Rat) (s : State) : Outcome :=
  let record := s.store.object frame.ref
  match record.interruption with
  | some (.equipment item timeoutS) => handleEquipment frame rest item timeoutS now s
  | some (.handler attempt handled) => handleInterrupt frame rest attempt handled now s
  | none =>
      if record.decisionPending ∧ record.result.isSome then decideCall questions frame rest now s
      else ([], s.goOn { frame with phase := .callState } rest id .awaiting)

/-- The state is read and the references resolved: the tool is called. -/
def dispatchCall (frame : Frame) (rest : List Frame) (tool : String) (arguments callState : Json)
    (s : State) : Outcome :=
  match resolveRef s.executor.results frame.item callState arguments with
  | none => ([], { s with control := .raising .planError })
  | some arguments =>
      ([.dispatched frame.path frame.baseKey frame.key tool arguments frame.item],
        s.goOn { frame with phase := .tool callState arguments } rest id .awaiting)

/-- The tool has returned. -/
def takeResult (frame : Frame) (rest : List Frame) (tool : String) (callState arguments : Json)
    (result : JsonObject) (s : State) : Outcome :=
  let s := s.goOn { frame with phase := .decisionState callState arguments result } rest
    (fun record => { record with
      result := some (publicResult result)
      delivered := (deliveredMark tool result).or record.delivered }) .awaiting
  ([], { s with executor := { s.executor with
    results := s.executor.results.set frame.key (.obj (publicResult result)) } })

/-- The choice that came with the result, or a question. -/
def settleResult (frame : Frame) (rest : List Frame) (callState arguments decisionState : Json)
    (result : JsonObject) (now : Rat) (s : State) : Outcome :=
  let s := s.goOn frame rest (fun record => { record with
    decisionFacts := some ⟨publicResult result, arguments, decisionState, callState⟩ }) s.control
  match handoffChoice result with
  | some "interrupt" =>
      beginAttempt frame rest 0 now s
  | some "repeat" =>
      reenter frame rest now (s.goOn frame rest
        (fun record => { record with decisionPending := false, status := .active }) s.control)
  | some "step_done" => applyCallChoice frame rest "step_done" "decision_call_agent" now s
  | some "next_step" => applyCallChoice frame rest "next_step" "decision_call_agent" now s
  | some "call_agent" => applyCallChoice frame rest "call_agent" "decision_call_agent" now s
  | _ => decideCall questions frame rest now s

/-- The answer to the question on the handler's result. -/
def handlerResult (frame : Frame) (rest : List Frame) (choice : String) (now : Rat) (s : State) :
    Outcome :=
  match choice, (s.store.object frame.ref).interruption with
  | "resume", _ =>
      reenter frame rest now (s.goOn frame rest
        (fun record => { record with interruption := none, status := .active }) s.control)
  | "repeat", some (.handler attempt _) => beginAttempt frame rest (attempt + 1) now s
  | "call_agent", _ =>
      ([], s.leave frame rest (NodeRecord.block "decision_call_agent") .blocked)
  | _, _ => ([], s.leave frame rest (NodeRecord.setStatus .waiting) .waiting)

/-! ## The other nodes -/

/-- A composite node that is done. -/
def finishNode (frame : Frame) (rest : List Frame) (s : State) : Outcome :=
  ([], s.leave frame rest (NodeRecord.setStatus .done) .done)

/-- A child of the top frame is entered. -/
def enterChild (frame : Frame) (rest : List Frame) (phase : Phase) (node : WorkNode)
    (step : PathStep) (item : Json) (s : State) : Outcome :=
  ([], { s with
    stack := { frame with phase } :: rest
    control := .enter ⟨node, step :: frame.path, item⟩ })

/-- `self.records[node_key]`, which raises where the key is gone. -/
def atRecord (frame : Frame) (s : State) (next : Nat → Outcome) : Outcome :=
  match s.store.records.get? frame.key with
  | some ref => next ref
  | none => ([], { s with control := .raising .other })

/-- The top frame goes on. -/
def resumeFrame (frame : Frame) (rest : List Frame) (now : Rat) (s : State) : Outcome :=
  match frame.node with
  | .call .. => callRound questions frame rest now s
  | .sequence _ steps =>
      let next := match frame.phase with
        | .steps next => next
        | _ => 0
      match steps[next]? with
      | some child => enterChild frame rest (.steps next) child (.step next) frame.item s
      | none => finishNode frame rest s
  | .batch _ false items body =>
      let next := match frame.phase with
        | .items next => next
        | _ => 0
      match items[next]? with
      | some value => enterChild frame rest (.items next) (body.forItem next) (.item next) value s
      | none => finishNode frame rest s
  | .batch _ true items _ =>
      let remaining := match frame.phase with
        | .adaptive remaining => remaining
        | _ => items
      match remaining with
      | [] => atRecord frame s fun ref =>
          ([], s.leave { frame with ref } rest (NodeRecord.setStatus .done) .done)
      | _ => ([], s.goOn { frame with phase := .adaptive remaining } rest id .awaiting)
  | .choice _ fromRuntime options =>
      match (s.store.object frame.ref).choiceId with
      | some id =>
          match options.find? (·.1 = id) with
          | some (_, work) => enterChild frame rest (.option id) work (.option id) frame.item s
          | none => ([], s.leave frame rest (NodeRecord.block "choice_option_removed") .blocked)
      | none =>
          if fromRuntime then ([], s.leave frame rest (NodeRecord.setStatus .blocked) .blocked)
          else ([], s.goOn { frame with phase := .choosing } rest id .awaiting)
  | .wait head _ => atRecord frame s fun ref =>
      let deadline := ((s.store.object ref).startedAt.getD now) + head.timeoutS.getD 0
      if min deadline s.executor.deadline < now then
        ([], s.leave { frame with ref } rest (NodeRecord.block "wait_timeout") .blocked)
      else ([], s.goOn { frame with phase := .waiting } rest id .awaiting)

/-- The answers to a node's `when`. -/
def takeCondition (frame : Frame) (rest : List Frame) (answers : List String) (now : Rat)
    (s : State) : Outcome :=
  let record := s.store.object frame.ref
  match conditionStatus (requirementCount (frame.node.head.when.getD .null)) answers with
  | .satisfied => ([], s.goOn { frame with phase := .body } rest id .resume)
  | status =>
      if s.executor.deadline ≤ now then
        ([], s.leave frame rest (NodeRecord.block "condition_timeout") .blocked)
      else if (frame.node.head.timeoutS.bind fun seconds =>
          record.startedAt.map fun started => decide (started + seconds ≤ now)).getD false then
        ([], s.leave frame rest (NodeRecord.block "node_timeout") .blocked)
      else if status = .pending then
        ([], s.leave frame rest
          (fun record => { record with status := .waiting, blocked := none }) .waiting)
      else ([], s.leave frame rest (NodeRecord.block "condition_unknown") .blocked)

/-- The answers to the condition of a wait. -/
def takeWait (frame : Frame) (rest : List Frame) (condition : Json) (answers : List String)
    (s : State) : Outcome :=
  atRecord frame s fun ref =>
    match conditionStatus (requirementCount condition) answers with
    | .satisfied => ([], s.leave { frame with ref } rest (NodeRecord.setStatus .done) .done)
    | _ => ([], s.leave { frame with ref } rest (NodeRecord.setStatus .waiting) .waiting)

/-- The option of a choice. -/
def takeOption (frame : Frame) (rest : List Frame) (options : List (String × WorkNode))
    (choice : String) (s : State) : Outcome :=
  match options.find? (·.1 = choice) with
  | none => ([], s.leave frame rest (NodeRecord.setStatus .blocked) .blocked)
  | some (id, work) =>
      let s := s.goOn frame rest (fun record => { record with choiceId := some id }) s.control
      ([.chose frame.path id], (enterChild frame rest (.option id) work (.option id) frame.item s).2)

/-- `remaining.pop(index)`. -/
def popAt (remaining : List Json) (index : Int) : Option (Json × List Json) :=
  let index := if index < 0 then index + remaining.length else index
  if index < 0 then none
  else remaining[index.toNat]?.map fun value => (value, remaining.eraseIdx index.toNat)

/-- The next item of an adaptive batch. -/
def takeItem (frame : Frame) (rest : List Frame) (items remaining : List Json) (body : WorkNode)
    (choice : String) (s : State) : Outcome :=
  match (intOfText choice).bind (popAt remaining) with
  | none => atRecord frame s fun ref =>
      ([], s.leave { frame with ref } rest (NodeRecord.block "choice_unknown") .blocked)
  | some (value, remaining) =>
      let index := items.length - remaining.length - 1
      enterChild frame rest (.adaptive remaining) (body.forItem index) (.item index) value s

/-! ## Returning and raising -/

/-- The status of a child reaches the frame below. -/
def returnTo (frame : Frame) (rest : List Frame) (status : NodeStatus) (now : Rat) (s : State) :
    Outcome :=
  match frame.phase with
  | .handler attempt =>
      if status = .done then
        ([.handled (.interrupt frame.key attempt :: frame.path)],
          s.goOn { frame with phase := .handlerState } rest
            (fun record => { record with interruption := some (.handler attempt true) }) .awaiting)
      else if status = .blocked then
        ([], s.leave frame rest (NodeRecord.block "interrupt_handler_blocked") .blocked)
      else ([], s.leave frame rest (NodeRecord.setStatus status) status)
  | .equipment =>
      if status = .done then
        reenter frame rest now (s.goOn frame rest
          (fun record => { record with interruption := none, status := .active }) s.control)
      else if status = .blocked then
        ([], s.leave frame rest (NodeRecord.block "equipment_action_blocked") .blocked)
      else ([], s.leave frame rest (NodeRecord.setStatus status) status)
  | .option _ =>
      if status = .done then finishNode frame rest s
      else ([], s.leave frame rest id status)
  | .steps next =>
      if status = .done then
        ([], s.goOn { frame with phase := .steps (next + 1) } rest id .resume)
      else ([], s.leave frame rest id status)
  | .items next =>
      if status = .done then
        ([], s.goOn { frame with phase := .items (next + 1) } rest id .resume)
      else ([], s.leave frame rest id status)
  | _ =>
      if status = .done then ([], { s with control := .resume })
      else ([], s.leave frame rest id status)

/-- A frame runs its child under `wait_for`. -/
def Frame.waitsFor (frame : Frame) : Bool :=
  match frame.phase with
  | .handler _ | .equipment => true
  | _ => false

/-- An exception leaves the top frame, or is the timeout it waits for. -/
def unwind (exc : Exc) (s : State) : Outcome :=
  match s.stack with
  | [] =>
      match exc with
      | .planError => ([.finished .blocked], { s with control := .idle })
      | .cancelled requested =>
          ([.finished (if requested then .cancelled else .blocked)], { s with control := .idle })
      | _ => ([.raised], { s with control := .idle })
  | frame :: rest =>
      if frame.waitsFor ∧ exc = .timeout then
        ([], s.leave frame rest (NodeRecord.block "node_timeout") .blocked)
      else ([], { s with stack := rest })

/-- The `wait_for` of a frame cancels what runs above it. -/
def expire (depth : Nat) (s : State) : Outcome :=
  match s.stack.drop depth with
  | frame :: rest =>
      if 0 < depth ∧ frame.waitsFor then
        ([], s.leave frame rest (NodeRecord.block "node_timeout") .blocked)
      else ([], s)
  | [] => ([], s)

/-- The top frame gets what it has awaited. -/
def takeReply (frame : Frame) (rest : List Frame) (reply : Reply) (now : Rat) (s : State) :
    Outcome :=
  let raise (exc : Exc) : Outcome := ([], { s with control := .raising exc })
  match frame.phase, reply with
  | .condition, .answers (.ok answers) => takeCondition frame rest answers now s
  | .condition, .answers (.error exc) => raise exc
  | .callState, .state (.ok callState) =>
      match frame.node with
      | .call _ tool arguments => dispatchCall frame rest tool arguments callState s
      | _ => ([], s)
  | .callState, .state (.error exc) => raise exc
  | .tool callState arguments, .result (.ok result) =>
      match frame.node with
      | .call _ tool _ => takeResult frame rest tool callState arguments result s
      | _ => ([], s)
  | .tool .., .result (.error exc) => raise exc
  | .decisionState callState arguments result, .state (.ok decisionState) =>
      settleResult questions frame rest callState arguments decisionState result now s
  | .decisionState _ _ _, .state (.error (.cancelled requested)) => raise (.cancelled requested)
  | .decisionState callState arguments result, .state (.error _) =>
      settleResult questions frame rest callState arguments callState result now s
  | .judge, .choice (.ok choice) => judgeChoice questions frame rest choice now s
  | .judge, .choice (.error (.cancelled requested)) => raise (.cancelled requested)
  | .judge, .choice (.error _) => judgeChoice questions frame rest "unknown" now s
  | .decision, .choice (.ok choice) =>
      let choice := if choice = "step_done" then "next_step" else choice
      let offered := questions.callOptions frame.node (s.store.object frame.ref).decisionFacts
      decisionChoice questions frame rest (if choice ∈ offered then choice else "unknown") now s
  | .decision, .choice (.error (.cancelled requested)) => raise (.cancelled requested)
  | .decision, .choice (.error _) => decisionChoice questions frame rest "unknown" now s
  | .inspect, .state (.error (.cancelled requested)) => raise (.cancelled requested)
  | .inspect, .state _ => decideCall questions frame rest now s
  | .handlerState, .state (.ok _) =>
      ([], s.goOn { frame with phase := .handlerChoice } rest id .awaiting)
  | .handlerState, .state (.error exc) => raise exc
  | .handlerChoice, .choice (.ok choice) => handlerResult frame rest choice now s
  | .handlerChoice, .choice (.error (.cancelled requested)) => raise (.cancelled requested)
  | .handlerChoice, .choice (.error _) => handlerResult frame rest "unknown" now s
  | .choosing, .choice (.ok choice) =>
      match frame.node with
      | .choice _ _ options => takeOption frame rest options choice s
      | _ => ([], s)
  | .choosing, .choice (.error exc) => raise exc
  | .adaptive remaining, .choice (.ok choice) =>
      match frame.node with
      | .batch _ true items body => takeItem frame rest items remaining body choice s
      | _ => ([], s)
  | .adaptive _, .choice (.error exc) => raise exc
  | .waiting, .answers (.ok answers) =>
      match frame.node with
      | .wait _ condition => takeWait frame rest condition answers s
      | _ => ([], s)
  | .waiting, .answers (.error exc) => raise exc
  | _, _ => ([], s)

/-- A step of the machine. An input that does not answer what is asked
changes nothing. -/
def step (s : State) (input : Input) : Outcome :=
  match s.control, input.reply with
  | .idle, .construct plan judged =>
      ([], { s with executor := ⟨plan, judged, input.now + plan.timeoutS, [], [], []⟩ })
  | .idle, .run =>
      ([], { s with
        executor := { s.executor with legacyOccurrences := [], repeatHistory := [] }
        stack := []
        control := .enter ⟨s.executor.plan.work, [], .null⟩ })
  | .enter d, .proceed => enterNode questions d input.now s
  | .returning status, .proceed =>
      match s.stack with
      | [] => ([.finished status], { s with control := .idle })
      | frame :: rest => returnTo frame rest status input.now s
  | .resume, .proceed =>
      match s.stack with
      | [] => ([], s)
      | frame :: rest => resumeFrame questions frame rest input.now s
  | .raising exc, .proceed => unwind exc s
  | .awaiting, .expire depth => expire depth s
  | .awaiting, reply =>
      match s.stack with
      | [] => ([], s)
      | frame :: rest => takeReply questions frame rest reply input.now s
  | _, _ => ([], s)

end

end WorkRuntime

end MineBot
