import Mathlib
import MineBot.Doubles
import MineBot.Text

/-!
# Execution snapshots

What is known of the Body operation in flight. Native progress samples are
merged into it; a sample is progress if one of the trackers sees it go beyond
its baseline. Positions are exact rationals here.
-/

namespace MineBot

namespace ExecutionSnapshots

/-! ## Reading a payload -/

/-- `payload.get(key)` -/
def field (payload : JsonObject) (key : String) : Json := (payload.get? key).getD .null

/-- `isinstance(value, Mapping)` -/
def mapping? : Json → Option JsonObject
  | .obj fields => some fields
  | _ => none

/-- `isinstance(value, (int, float))` -/
def number? : Json → Option Rat
  | .int n => some n
  | .bool b => some (if b then 1 else 0)
  | .float q => some q
  | _ => none

def items? : Json → Option (List Json)
  | .arr items => some items
  | _ => none

def text? : Json → Option String
  | .str text => some text
  | _ => none

/-- `float(value)`. What a text comes to is `floatOfText`. -/
def pyFloat (floatOfText : String → Option Rat) : Json → Except IntError Rat
  | .int n => .ok n
  | .bool b => .ok (if b then 1 else 0)
  | .float q => .ok q
  | .str text => match floatOfText text with
    | some q => .ok q
    | none => .error .valueError
  | .null | .arr _ | .obj _ => .error .typeError

/-- `{key: fields[key] for key in keys if key in fields}` -/
def pick (fields : JsonObject) (keys : List String) : JsonObject :=
  keys.filterMap fun key => (fields.get? key).map fun value => (key, value)

/-- `payload.get("navigation")`, or nothing. -/
def navigationOf (payload : JsonObject) : JsonObject :=
  (mapping? (field payload "navigation")).getD []

/-! ## The operation -/

/-- `TERMINAL_STATES` and the states before them. -/
inductive OperationState where
  | accepted
  | running
  | stopping
  | succeeded
  | failed
  | cancelled
  | unknown
deriving DecidableEq

def OperationState.terminal : OperationState → Bool
  | accepted | running | stopping => false
  | succeeded | failed | cancelled | unknown => true

inductive Signal where
  | worldEdit
  | construction
  | path
  | movement
  | inventory
deriving DecidableEq

abbrev Position := Rat × Rat × Rat

/-- Evidence baselines: a first sample sets them and proves no progress. -/
structure Baselines where
  worldEdits : Int
  maxMatching : Option Int
  /-- By the text of a path, which its `src`, `dest` and `path_movements` decide. -/
  pathHighwater : Dict (List Json) Int
  position : Option Position
  startPosition : Option Position
  inventory : Option (Dict String Int)
  startInventory : Option (Dict String Int)

/-- `path_failed` and `path_failed_at_progress`. -/
structure PathFailures where
  failed : Int
  atProgress : Int

structure Operation where
  operationId : String
  tool : String
  arguments : JsonObject
  actionId : Option String
  state : OperationState
  phase : Option String
  observedAt : Option String
  lastProgressAt : Option String
  lastProgress : Rat
  progressSignal : Option Signal
  facts : JsonObject
  vitals : Dict String Rat
  baselines : Baselines
  pathFailures : PathFailures
  factRevision : Nat
  factObservedAt : Option String
  factFrameAt : Rat
  factFramePhase : Option String

/-- What the clocks show at a call: `time.monotonic()` and `_utc_now()`. -/
structure Clock where
  monotonic : Rat
  utc : String

structure Snapshots where
  current : Option Operation

/-- `_Operation(operation_id, tool, arguments)` -/
def Operation.new (operationId tool : String) (arguments : JsonObject) (clock : Clock) :
    Operation where
  operationId := operationId
  tool := tool
  arguments := arguments
  actionId := none
  state := .accepted
  phase := none
  observedAt := none
  lastProgressAt := none
  lastProgress := clock.monotonic
  progressSignal := none
  facts := []
  vitals := []
  baselines := ⟨0, none, [], none, none, none, none⟩
  pathFailures := ⟨0, 0⟩
  factRevision := 0
  factObservedAt := none
  factFrameAt := 0
  factFramePhase := none

/-! ## What is progress -/

/-- The newest edit beyond those already seen. -/
def seeWorldEdits (worldEdits : Int) (payload : JsonObject) : Except IntError (Int × Bool) :=
  match items? (field payload "world_edits") with
  | none => .ok (worldEdits, false)
  | some edits => do
      let indexes ← (edits.filterMap mapping?).mapM fun edit =>
        pyInt ((edit.get? "index").getD (.int (-1)))
      let newest := indexes.max?.getD (-1) + 1
      return if worldEdits < newest then (newest, true) else (worldEdits, false)

/-- `construction.get("matching_cells")` -/
def matchingCells? (payload : JsonObject) : Option Int :=
  (mapping? (field payload "construction_progress")).bind fun construction =>
    (field construction "matching_cells").isInt?

/-- More cells match than ever before. -/
def seeConstruction (maxMatching : Option Int) (payload : JsonObject) : Option Int × Bool :=
  match matchingCells? payload with
  | none => (maxMatching, false)
  | some matching => (some (max matching (maxMatching.getD 0)), maxMatching.any (· < matching))

/-- The path the sample is on. -/
def pathKey (payload : JsonObject) : List Json :=
  ["src", "dest", "path_movements"].map (field (navigationOf payload))

/-- The Body is further along this path than ever before. -/
def seePath (highwater : Dict (List Json) Int) (payload : JsonObject) :
    Dict (List Json) Int × Bool :=
  match (field (navigationOf payload) "path_position").isInt? with
  | none => (highwater, false)
  | some index =>
      let path := pathKey payload
      (highwater.set path (max index ((highwater.get? path).getD (-1))),
        (highwater.get? path).any (· < index))

def distance2 (p q : Position) : Rat :=
  (p.1 - q.1) ^ 2 + (p.2.1 - q.2.1) ^ 2 + (p.2.2 - q.2.2) ^ 2

/-- `MOVEMENT_PROGRESS_BLOCKS` -/
def movementProgressBlocks : Rat := 1 / 2

/-- `payload.get("pathing") or navigation.get("pathing")` -/
def pathing (payload : JsonObject) : Bool :=
  (field payload "pathing").truthy || (field (navigationOf payload) "pathing").truthy

/-- `position` has three coordinates. -/
def coordinates? (payload : JsonObject) : Option (Json × Json × Json) :=
  match items? (field payload "position") with
  | some [x, y, z] => some (x, y, z)
  | _ => none

/-- `tuple(float(value) for value in position)` -/
def readPosition (floatOfText : String → Option Rat) (coordinates : Json × Json × Json) :
    Except IntError Position := do
  let x ← pyFloat floatOfText coordinates.1
  let y ← pyFloat floatOfText coordinates.2.1
  let z ← pyFloat floatOfText coordinates.2.2
  return (x, y, z)

/-- `position` is far enough from the last one that counted. -/
def moved (position : Option Position) (current : Position) : Bool :=
  position.any fun position => movementProgressBlocks ^ 2 ≤ distance2 current position

/-- The position and the first one, and whether the Body got anywhere along a
path. -/
def seePosition (floatOfText : String → Option Rat) (position start : Option Position)
    (payload : JsonObject) : Except IntError ((Option Position × Option Position) × Bool) :=
  match coordinates? payload with
  | none => .ok ((position, start), false)
  | some coordinates =>
      (readPosition floatOfText coordinates).map fun current =>
        ((if moved position current || position.isNone then some current else position,
            start.or (some current)),
          -- being pushed or jittering in place is not progress
          moved position current && pathing payload)

/-- The counts of a payload that shows a complete inventory. -/
def inventoryCounts? (payload : JsonObject) : Option (Dict String Int) :=
  let complete := field payload "inventory_complete"
  let inventory := (mapping? (field payload "inventory")).or
    (mapping? (field payload "inventory_counts"))
  if (!(field payload "lite").truthy || complete = .bool true) && complete ≠ .bool false then
    inventory.map fun items => Dict.update [] (items.filterMap fun entry =>
      entry.2.isInt?.map fun count => (entry.1, count))
  else none

/-- `counts == counts'`: dictionaries are equal whatever their order. -/
def sameCounts (counts counts' : Dict String Int) : Bool :=
  (counts.map Prod.fst ++ counts'.map Prod.fst).all fun item => counts.get? item = counts'.get? item

/-- The inventory and the first one, and whether it changed. -/
def seeInventory (inventory start : Option (Dict String Int)) (payload : JsonObject) :
    (Option (Dict String Int) × Option (Dict String Int)) × Bool :=
  match inventoryCounts? payload with
  | none => ((inventory, start), false)
  | some counts =>
      ((some counts, if inventory.isNone then some counts else start),
        inventory.any fun before => !sameCounts counts before)

/-- Which signal is reported: construction over edits, and those over the
others. -/
def signalOf (edited matched advanced moved changed : Bool) : Option Signal :=
  if matched then some .construction
  else if edited then some .worldEdit
  else if advanced then some .path
  else if moved then some .movement
  else if changed then some .inventory
  else none

/-- `_progress_signal`. Where a value does not convert, the trackers before it
have seen the sample. -/
def progressSignal (floatOfText : String → Option Rat) (b : Baselines) (payload : JsonObject) :
    Except IntError (Option Signal) × Baselines :=
  match seeWorldEdits b.worldEdits payload with
  | .error e => (.error e, b)
  | .ok (worldEdits, edited) =>
      let (maxMatching, matched) := seeConstruction b.maxMatching payload
      let (pathHighwater, advanced) := seePath b.pathHighwater payload
      match seePosition floatOfText b.position b.startPosition payload with
      | .error e => (.error e, { b with worldEdits, maxMatching, pathHighwater })
      | .ok ((position, startPosition), moved) =>
          let ((inventory, startInventory), changed) :=
            seeInventory b.inventory b.startInventory payload
          (.ok (signalOf edited matched advanced moved changed),
            ⟨worldEdits, maxMatching, pathHighwater, position, startPosition, inventory,
              startInventory⟩)

/-- `events.get("CALC_FAILED")` -/
def calcFailed? (payload : JsonObject) : Option Int :=
  (mapping? (field payload "path_events")).bind fun events => (field events "CALC_FAILED").isInt?

/-- A new native action restarts the counter. -/
def PathFailures.see (f : PathFailures) (payload : JsonObject) : PathFailures :=
  match calcFailed? payload with
  | none => f
  | some failed => ⟨failed, if failed < f.failed then 0 else f.atProgress⟩

/-- Progress re-bases the counter. -/
def PathFailures.rebase (f : PathFailures) : Option Signal → PathFailures
  | none => f
  | some _ => ⟨f.failed, f.failed⟩

def PathFailures.failing (f : PathFailures) : Int := f.failed - f.atProgress

/-! ## The facts -/

def navigationFacts : List String :=
  ["dest", "calculating", "path_position", "repeated_failures", "last_failure"]

def copiedFacts : List String :=
  ["pathing", "builder_paused", "selected_item", "selected_item_known", "inventory_complete",
    "inventory_includes_selected", "creative", "any_process_active", "scaffold_blocks", "health",
    "food", "oxygen", "in_water", "submerged", "water", "on_ground", "head_in_liquid",
    "safe_standing_position", "last_safe_position", "food_available", "food_item",
    "nearest_hostile_position"]

def entityKeys : List String := ["nearby_entities", "nearby_hostiles", "entities", "hostiles"]

def constructionFacts : List String := ["expected_cells", "matching_cells", "material_item"]

/-- `PROCESS_FIELDS` -/
def processFields : List (String × String) :=
  [("goal", "goal_active"), ("builder", "builder_active"), ("mine", "mine_active"),
    ("get", "get_active"), ("explore", "explore_active"), ("follow", "follow_active"),
    ("farm", "farm_active"), ("elytra", "elytra_active")]

def factDeltaLimit : Nat := 8

/-- `round(value, 1)` -/
def roundTenth (q : Rat) : Rat := Double.roundHalfEven (q * 10) / 10

def positionFact (position : Position) : Json :=
  .arr ([position.1, position.2.1, position.2.2].map fun value => .float (roundTenth value))

/-- `facts[key] = value`, if there is one. -/
def setSome (key : String) (value : Option Json) (facts : JsonObject) : JsonObject :=
  value.elim facts (facts.set key)

/-- `text[:n]` -/
def cut (text : String) (n : Nat) : String := .ofList (text.toList.take n)

/-- What a vital was at the sample before. -/
def mergeVital (payload : JsonObject) (s : JsonObject × Dict String Rat) (vital : String) :
    JsonObject × Dict String Rat :=
  match number? (field payload vital) with
  | none => s
  | some current =>
      let facts := match s.2.get? vital with
        | none => s.1
        | some previous =>
            let facts := s.1.set (vital ++ "_previous") (.float previous)
            if vital = "health" then
              if current < previous then facts.set "recently_hurt" (.bool true)
              else facts.pop "recently_hurt"
            else facts
      (facts, s.2.set vital current)

def vitalNames : List String := ["oxygen", "health", "food"]

/-- `_entity_distance`; `none` is the infinite one. -/
def entityDistance (entity : Json) : Option Rat :=
  (mapping? entity).bind fun entity =>
    (number? (field entity "dist2")).or
      ((number? ((entity.get? "dist").getD (field entity "distance"))).map (· ^ 2))

def Nearer (entity entity' : Json) : Prop :=
  match entityDistance entity, entityDistance entity' with
  | _, none => True
  | none, some _ => False
  | some distance, some distance' => distance ≤ distance'

instance decidableNearer : DecidableRel Nearer := fun entity entity' => by
  unfold Nearer
  split <;> infer_instance

/-- The entities the sample lists. -/
def entityLists (payload : JsonObject) : List (String × Json) :=
  entityKeys.filterMap fun key => (items? (field payload key)).map fun entities =>
    (key, .arr ((entities.insertionSort Nearer).take 32))

def mergeEntities (payload : JsonObject) (facts : JsonObject) : JsonObject :=
  let lists := entityLists payload
  if lists = [] then facts else (entityKeys.foldl Dict.pop facts).update lists

/-- `[name for name, field in PROCESS_FIELDS.items() if payload.get(field) is True]` -/
def activeProcesses (payload : JsonObject) : List String :=
  (processFields.filter fun process => field payload process.2 = .bool true).map Prod.fst

def mergeProcesses (payload : JsonObject) (facts : JsonObject) : JsonObject :=
  if processFields.any fun process => (payload.get? process.2).isSome then
    facts.set "processes" (.arr ((activeProcesses payload).map .str))
  else facts

/-- What there is more and less of than at the start. -/
def inventoryDelta (inventory start : Dict String Int) : Dict String Int :=
  let changed := (inventory.filter fun entry => entry.2 ≠ (start.get? entry.1).getD 0).map
    fun entry => (entry.1, entry.2 - (start.get? entry.1).getD 0)
  Dict.update changed ((start.filter fun entry => (inventory.get? entry.1).isNone).map
    fun entry => (entry.1, -entry.2))

def LargerChange (entry entry' : String × Int) : Prop := entry'.2.natAbs ≤ entry.2.natAbs

instance decidableLargerChange : DecidableRel LargerChange :=
  fun _ _ => inferInstanceAs (Decidable (_ ≤ _))

/-- The delta, largest changes first. -/
def Baselines.delta? (b : Baselines) : Option (Dict String Int) :=
  b.inventory.bind fun inventory => b.startInventory.map fun start =>
    (inventoryDelta inventory start).insertionSort LargerChange

def countsFact (counts : Dict String Int) : Json :=
  .obj (counts.map fun entry => (entry.1, .int entry.2))

def Baselines.deltaFact? (b : Baselines) : Option Json :=
  b.delta?.map fun ordered => countsFact (ordered.take factDeltaLimit)

def Baselines.omitted? (b : Baselines) : Option Json :=
  (b.delta?.filter (factDeltaLimit < ·.length)).map fun ordered =>
    .int (ordered.length - factDeltaLimit)

def mergeInventory (b : Baselines) (facts : JsonObject) : JsonObject :=
  let inventory := b.delta?.bind fun _ => b.inventory.map countsFact
  setSome "inventory_delta_omitted" b.omitted?
    (setSome "inventory_delta" b.deltaFact? (setSome "inventory" inventory facts))

def PathFailures.fact? (f : PathFailures) : Option Json :=
  if 0 < f.failing then some (.int f.failing) else none

/-- `facts[key] = value`, or nothing there. -/
def setOrPop (key : String) (value : Option Json) (facts : JsonObject) : JsonObject :=
  value.elim (facts.pop key) (facts.set key)

/-- `explicit_phase.strip()[:80]`, where the Body reports one. -/
def explicitPhase? (payload : JsonObject) : Option String :=
  ((text? (field payload "phase")).filter fun phase => pyStrip phase ≠ "").map
    fun phase => cut (pyStrip phase) 80

/-- `_PROCESS_PHASES`, in the order they are asked for. -/
def processPhases : List (String × String) :=
  [("builder", "building"), ("mine", "mining"), ("get", "getting_block"), ("explore", "exploring"),
    ("follow", "following"), ("farm", "farming"), ("elytra", "flying")]

/-- `_phase`. -/
def phaseOf (payload : JsonObject) (previous : Option String) : Option String :=
  let navigation := navigationOf payload
  let active := activeProcesses payload
  if (field payload "lite").truthy && navigation = [] && active = [] then
    previous -- a lite frame carries no process evidence
  else if field payload "builder_paused" = .bool true then some "builder_paused"
  else if field navigation "calculating" = .bool true then some "calculating_path"
  else if (field navigation "pending_break").truthy then some "breaking"
  else if (field navigation "pending_place").truthy then some "placing"
  else match processPhases.find? fun process => process.1 ∈ active with
    | some process => some process.2
    | none =>
        if field payload "pathing" = .bool true || "goal" ∈ active then some "moving" else none

/-- A search that keeps failing is named. -/
def failingPhase (failing : Int) (phase : Option String) : Option String :=
  if 2 ≤ failing && (phase = none || phase = some "calculating_path") then
    some "path_calculation_failing"
  else phase

/-- The phase after a sample. -/
def nextPhase (payload : JsonObject) (failing : Int) (previous : Option String) : Option String :=
  failingPhase failing ((explicitPhase? payload).or (phaseOf payload previous))

/-- `_merge_facts`. -/
def Operation.mergeFacts (op : Operation) (payload : JsonObject) : Operation :=
  let facts := op.facts.set "source" (.str "client")
  let facts := setSome "position" (op.baselines.position.map positionFact) facts
  let facts := setSome "start_position" (op.baselines.startPosition.map positionFact) facts
  let facts := setSome "navigation" ((mapping? (field payload "navigation")).map fun navigation =>
    .obj (pick navigation navigationFacts)) facts
  let merged := vitalNames.foldl (mergeVital payload) (facts, op.vitals)
  let facts := Dict.update merged.1 (pick payload copiedFacts)
  let facts := mergeEntities payload facts
  let facts := mergeProcesses payload facts
  let facts := setSome "construction" ((mapping? (field payload "construction_progress")).map
    fun construction => .obj (pick construction constructionFacts)) facts
  let facts := mergeInventory op.baselines facts
  let facts := setSome "goal" ((text? (field payload "baritone_goal")).map fun goal =>
    .str (cut goal 200)) facts
  let facts := setOrPop "failed_path_calculations" op.pathFailures.fact? facts
  { op with
    facts := facts
    vitals := merged.2
    phase := nextPhase payload op.pathFailures.failing op.phase }

/-! ## The calls -/

def factFrameIntervalS : Rat := 1

/-- `_mark_fact_frame`. -/
def Operation.markFactFrame (op : Operation) (clock : Clock) : Operation :=
  if op.factRevision = 0 || op.phase ≠ op.factFramePhase
      || factFrameIntervalS ≤ clock.monotonic - op.factFrameAt then
    { op with
      factRevision := op.factRevision + 1
      factFrameAt := clock.monotonic
      factFramePhase := op.phase
      factObservedAt := some clock.utc }
  else op

/-- A sample is in, whatever it is. -/
def Operation.receive (op : Operation) (payload : JsonObject) (clock : Clock) : Operation :=
  { op with
    state := if op.state = .accepted then .running else op.state
    actionId := ((text? (field payload "action_id")).filter (· ≠ "")).or op.actionId
    observedAt := some clock.utc
    pathFailures := op.pathFailures.see payload }

/-- What a signal leaves behind. -/
def Operation.progress (op : Operation) (signal : Option Signal) (clock : Clock) : Operation :=
  match signal with
  | none => op
  | some signal =>
      { op with
        lastProgress := clock.monotonic
        lastProgressAt := op.observedAt
        progressSignal := some signal
        pathFailures := op.pathFailures.rebase (some signal) }

/-- `observe`, of the operation. -/
def Operation.observe (floatOfText : String → Option Rat) (op : Operation) (payload : JsonObject)
    (clock : Clock) : Except IntError (Option Signal) × Operation :=
  let op := op.receive payload clock
  match ExecutionSnapshots.progressSignal floatOfText op.baselines payload with
  | (.error e, baselines) => (.error e, { op with baselines })
  | (.ok signal, baselines) =>
      let op := { op with baselines }.progress signal clock
      (.ok signal, (op.mergeFacts payload).markFactFrame clock)

def factsListLimit : Nat := 64

def factsDictLimit : Nat := 32

def factsStringLimit : Nat := 500

/-- `_bounded_value`, so many levels down. -/
def boundedValue : Nat → Json → Json
  | 0, _ => .str "<bounded>"
  | depth + 1, .obj fields =>
      let out := Dict.update [] ((fields.take factsDictLimit).map fun entry =>
        (cut entry.1 100, boundedValue depth entry.2))
      .obj (if factsDictLimit < fields.length then
        out.set "_omitted" (.int (fields.length - factsDictLimit)) else out)
  | depth + 1, .arr items =>
      .arr ((items.take factsListLimit).map (boundedValue depth) ++
        if factsListLimit < items.length then
          [.str ("<" ++ toString (items.length - factsListLimit) ++ " omitted>")]
        else [])
  | _ + 1, .str text => .str (cut text factsStringLimit)
  | _ + 1, value => value

/-- `enrich`, of the operation. -/
def Operation.enrich (op : Operation) (facts : JsonObject) (source : String) (clock : Clock) :
    Operation :=
  let reads := ((op.facts.get? "bounded_reads").bind items?).getD []
  let candidate := Json.obj [("source", .str source), ("facts", boundedValue 5 (.obj facts))]
  -- an identical read is no new evidence
  if reads.any (Json.pyEq candidate) then op
  else { op with facts := op.facts.set "bounded_reads" (.arr (reads ++ [candidate])) }.markFactFrame
    clock

/-- The operation, if it is the one and not over. -/
def Snapshots.live? (s : Snapshots) (operationId : String) : Option Operation :=
  s.current.filter fun op => op.operationId = operationId && !op.state.terminal

/-- `ExecutionSnapshots.observe`: what is signalled, and the state after. -/
def Snapshots.observe (floatOfText : String → Option Rat) (operationId : String) (s : Snapshots)
    (payload : JsonObject) (clock : Clock) : Except IntError (Option Signal) × Snapshots :=
  match s.live? operationId with
  | none => (.ok none, s)
  | some op =>
      let (outcome, op) := op.observe floatOfText payload clock
      (outcome, ⟨some op⟩)

/-- `ExecutionSnapshots.tick`. -/
def Snapshots.tick (operationId : String) (s : Snapshots) (clock : Clock) : Snapshots :=
  match s.live? operationId with
  | none => s
  | some op => ⟨some (op.markFactFrame clock)⟩

/-- `ExecutionSnapshots.enrich`. -/
def Snapshots.enrich (operationId : String) (s : Snapshots) (facts : JsonObject) (source : String)
    (clock : Clock) : Snapshots :=
  match s.live? operationId with
  | none => s
  | some op => ⟨some (op.enrich facts source clock)⟩

end ExecutionSnapshots

end MineBot
