import MineBot.JavaBodyClient
import MineBot.ObjectiveText

/-!
# Actions of the real client

How `RealClientBody` sends an action: as an objective, as a typed action the
client carries out, or as a control request. And the events it makes of what
comes back. An event has no number yet when it is made (`seq` is 0).
-/

namespace MineBot

namespace RealClient

open Objective

/-- `contract.Action`. -/
structure Action extends Objective.Action where
  id : String

/-- A type or a name, with its fields. -/
abbrev Request := String × JsonObject

/-! ## Requests -/

/-- `params.setdefault(key, value)`. -/
def setDefault (params : JsonObject) (key : String) (value : Json) : JsonObject :=
  match params.get? key with
  | some _ => params
  | none => params.set key value

/-- The actions that the client carries out under their own names. -/
def wireNames : List String :=
  ["engageEntity", "rangedAttack", "craftItem", "containerTransfer", "furnaceTransfer",
   "handoffItem", "ascend", "digDown", "digUp", "useItem", "placeBlock", "collectBlocks",
   "builderBuildFile"]

/-- The parameters of a dig: the steps bound the distance and the mutations. -/
def digParams (params : JsonObject) : Except ParamError JsonObject :=
  match arg params "max_steps" with
  | .null => .ok params
  | value => do
      let steps ← toInt value
      return setDefault (setDefault params "max_distance" (.int steps)) "max_mutations"
        (.int (steps * 3))

def handoffParams (params : JsonObject) : Except ParamError JsonObject :=
  match arg params "timeout_ticks" with
  | .null => .ok params
  | value => do
      let ticks ← toInt value
      return setDefault params "pickup_timeout_ticks" (.int ticks)

/-- `_wire_action_for`. -/
def wireActionFor (action : Action) : Except ParamError (Option Request) :=
  if action.name = "baritoneBuilderBuildFile" then .ok (some ("builderBuildFile", action.params))
  else if action.name ∉ wireNames then .ok none
  else do
    let params ←
      if action.name = "digDown" ∨ action.name = "digUp" then digParams action.params
      else if action.name = "handoffItem" then handoffParams action.params
      else .ok action.params
    return some (action.name, params)

/-- The settings a settings action may name directly. -/
def settingNames : List String :=
  ["allow_break", "allow_place", "explore_for_blocks", "replant_crops", "farm_max_scan_size",
   "build_in_layers"]

def settingsControl (params : JsonObject) : Option Request :=
  let values : JsonObject :=
    match params.get? "settings" with
    | some (.obj values) => values
    | _ => params.filter fun field => field.1 ∈ settingNames
  if values = [] then none else some ("settings", values)

def selectionAdd (params : JsonObject) : Option Request :=
  match params.get? "pos1", params.get? "pos2" with
  | some (.arr pos1), some (.arr pos2) =>
      some ("builder_selection",
        [("operation", .str "add"), ("pos1", .arr pos1), ("pos2", .arr pos2)])
  | _, _ => none

def selectionMove (operation : String) (params : JsonObject) : Option Request :=
  match nameOf (arg params "direction"), int? ((params.get? "amount").getD (.int 1)) with
  | some direction, some amount =>
      if amount < 1 ∨ 256 < amount then none
      else some ("builder_selection", [("operation", .str operation),
        ("direction", .str direction), ("amount", .int amount)])
  | _, _ => none

/-- The actions that are one primitive of the client. -/
def primitiveNames : List String :=
  ["jump", "stop", "selectItem", "selectSlot", "lookAt", "attackEntity", "dropItem", "moveItem",
   "igniteBlock", "sowCrop"]

/-- `_control_for`. -/
def controlFor (action : Action) : Option Request :=
  let params := action.params
  let name := action.name
  if name = "baritoneSettings" ∨ name = "setBaritoneSettings" then settingsControl params
  else if name = "builderPause" ∨ name = "baritoneBuilderPause" then some ("builder_pause", [])
  else if name = "builderResume" ∨ name = "baritoneBuilderResume" then some ("builder_resume", [])
  else if name = "builderOpenSchematic" ∨ name = "baritoneBuilderOpenSchematic" then
    some ("builder_open_schematic", [])
  else if name = "builderOpenLitematic" ∨ name = "baritoneBuilderOpenLitematic" then
    (int? (either (arg params "index") (.int 0))).map fun index =>
      ("builder_open_litematic", [("index", .int index)])
  else if name = "exploreFilter" ∨ name = "baritoneExploreFilter" then
    (nameOf (arg params "path")).map fun path => ("explore_filter",
      [("path", .str path), ("invert", .bool ((params.get? "invert").getD (.bool false)).truthy)])
  else if name = "elytraRepack" ∨ name = "baritoneElytraRepack" then some ("elytra_repack", [])
  else if name = "elytraReset" ∨ name = "baritoneElytraReset" then some ("elytra_reset", [])
  else if name = "getToBlockBlacklistClosest" ∨ name = "baritoneGetToBlockBlacklistClosest" then
    some ("get_to_block_blacklist", [])
  else if name = "builderSelectionAdd" ∨ name = "baritoneBuilderSelectionAdd" then
    selectionAdd params
  else if name = "builderSelectionClear" ∨ name = "baritoneBuilderSelectionClear" then
    some ("builder_selection", [("operation", .str "clear")])
  else if name = "builderSelectionExpand" ∨ name = "baritoneBuilderSelectionExpand" then
    selectionMove "expand" params
  else if name = "builderSelectionContract" ∨ name = "baritoneBuilderSelectionContract" then
    selectionMove "contract" params
  else if name = "builderSelectionShift" ∨ name = "baritoneBuilderSelectionShift" then
    selectionMove "shift" params
  else if name ∈ primitiveNames then
    some ("primitive", [("action_name", .str name), ("params", .obj params)])
  else none

/-- How an action is sent. -/
structure Route where
  objective : Option String
  wireAction : Option Request
  control : Option Request
deriving DecidableEq

/-- The routing at the head of `execute`: a control is what is neither an
objective nor a typed action. -/
def routeOf (py : Python) (action : Action) : Except ParamError Route := do
  let objective ← objectiveFor py action.toAction
  let wireAction ← wireActionFor action
  let control := if objective.isSome ∨ wireAction.isSome then none else controlFor action
  return ⟨objective, wireAction, control⟩

/-! ## Events -/

/-- What `_terminal_name` looks up. -/
def terminalNames : Dict String String :=
  [("navigate", "navigateDone"), ("moveTo", "moveDone"), ("navigateTo", "navigateDone"),
   ("mineResource", "mineDone"), ("collectBlocks", "mineDone"), ("baritoneMine", "mineDone"),
   ("getToBlock", "getToBlockDone"), ("baritoneGetToBlock", "getToBlockDone"),
   ("explore", "exploreDone"), ("baritoneExplore", "exploreDone"),
   ("followEntity", "followDone"), ("baritoneFollow", "followDone"),
   ("pickupItems", "pickupDone"), ("baritonePickup", "pickupDone"), ("farmArea", "farmDone"),
   ("baritoneFarm", "farmDone"), ("buildStructure", "buildDone"), ("baritoneBuild", "buildDone"),
   ("clearArea", "clearDone"), ("baritoneClear", "clearDone"), ("elytraTravel", "elytraDone"),
   ("baritoneElytra", "elytraDone"), ("baritoneSettings", "baritoneSettingsDone"),
   ("setBaritoneSettings", "baritoneSettingsDone"), ("builderPause", "builderPauseDone"),
   ("baritoneBuilderPause", "builderPauseDone"), ("builderResume", "builderResumeDone"),
   ("baritoneBuilderResume", "builderResumeDone"),
   ("builderOpenSchematic", "builderOpenSchematicDone"),
   ("baritoneBuilderOpenSchematic", "builderOpenSchematicDone"),
   ("builderOpenLitematic", "builderOpenLitematicDone"),
   ("baritoneBuilderOpenLitematic", "builderOpenLitematicDone"),
   ("exploreFilter", "exploreFilterDone"), ("baritoneExploreFilter", "exploreFilterDone"),
   ("elytraRepack", "elytraRepackDone"), ("baritoneElytraRepack", "elytraRepackDone"),
   ("elytraReset", "elytraResetDone"), ("baritoneElytraReset", "elytraResetDone"),
   ("getToBlockBlacklistClosest", "getToBlockBlacklistDone"),
   ("baritoneGetToBlockBlacklistClosest", "getToBlockBlacklistDone"),
   ("builderSelectionAdd", "builderSelectionDone"),
   ("baritoneBuilderSelectionAdd", "builderSelectionDone"),
   ("builderSelectionClear", "builderSelectionDone"),
   ("baritoneBuilderSelectionClear", "builderSelectionDone"),
   ("builderSelectionExpand", "builderSelectionDone"),
   ("baritoneBuilderSelectionExpand", "builderSelectionDone"),
   ("builderSelectionContract", "builderSelectionDone"),
   ("baritoneBuilderSelectionContract", "builderSelectionDone"),
   ("builderSelectionShift", "builderSelectionDone"),
   ("baritoneBuilderSelectionShift", "builderSelectionDone"),
   ("builderBuildFile", "builderFileDone"), ("baritoneBuilderBuildFile", "builderFileDone"),
   ("baritoneCommand", "baritoneCommandDone"), ("executeBaritoneCommand", "baritoneCommandDone"),
   ("jump", "jumpDone"), ("stop", "stopDone"), ("selectItem", "selectItemDone"),
   ("selectSlot", "selectSlotDone"), ("lookAt", "lookDone"), ("useItem", "useDone"),
   ("attackEntity", "attackDone"), ("dropItem", "dropDone"), ("moveItem", "moveItemDone"),
   ("mineBlock", "mineDone"), ("collectBlock", "mineDone"), ("placeBlock", "placeDone"),
   ("igniteBlock", "igniteDone"), ("sowCrop", "sowDone"), ("engageEntity", "engageDone"),
   ("rangedAttack", "rangedDone"), ("craftItem", "craftDone"),
   ("containerTransfer", "containerDone"), ("furnaceTransfer", "furnaceDone"),
   ("handoffItem", "handoffDone"), ("ascend", "ascendDone"), ("digDown", "digDownDone"),
   ("digUp", "digUpDone")]

/-- `_terminal_name`. -/
def terminalName (actionName : String) : String :=
  (terminalNames.get? actionName).getD "actionDone"

/-- `RealClientTerminal`. -/
structure Terminal where
  actionId : String
  status : String
  reason : String
  payload : JsonObject

/-- The position of a payload, as final coordinates. -/
def withFinalPosition (payload : JsonObject) : JsonObject :=
  match payload.get? "position" with
  | some (.arr [x, y, z]) =>
      setDefault (setDefault (setDefault payload "final_x" x) "final_y" y) "final_z" z
  | _ => payload

/-- `_terminal_event`. -/
def terminalEvent (botName : String) (action : Action) (terminal : Terminal) : Event :=
  let payload := withFinalPosition
    (setDefault (terminal.payload.set "terminal_source" (.str "native")) "stopped_reason"
      (.str terminal.reason))
  { seq := 0
    tick := 0
    bot := botName
    name := terminalName action.name
    data := Dict.update payload
      [("action_id", .str action.id), ("success", .bool (terminal.status = "completed")),
       ("status", .str terminal.status), ("reason", .str terminal.reason),
       ("objective", (payload.get? "objective").getD .null)] }

/-- `_control_event`. -/
def controlEvent (botName : String) (action : Action) (response : JsonObject) : Event :=
  { seq := 0
    tick := 0
    bot := botName
    name := terminalName action.name
    data := Dict.update response
      [("action_id", .str action.id), ("success", .bool true), ("status", .str "completed"),
       ("reason", .str "control_applied"), ("stopped_reason", .str "completed")] }

/-- What `ipc` raises: a `RealClientRejected`, or another exception, of this
type. -/
inductive IpcError where
  | rejected (message : String)
  | failed (kind message : String)
deriving DecidableEq

/-- `str(error)`. -/
def IpcError.message : IpcError → String
  | .rejected message | .failed _ message => message

def IpcError.reason : IpcError → String
  | .rejected message => message
  | .failed kind _ => "transport:" ++ kind

def IpcError.isRejection : IpcError → Bool
  | .rejected _ => true
  | .failed _ _ => false

/-- The event of an action whose request raised. -/
def failureEvent (botName : String) (action : Action) (control : Option Request)
    (error : IpcError) : Event :=
  { seq := 0
    tick := 0
    bot := botName
    name := terminalName action.name
    data :=
      [("action_id", .str action.id), ("success", .bool false), ("status", .str "failed"),
       ("reason", .str error.reason), ("stopped_reason", .str error.reason),
       ("message", .str error.message),
       ("terminal_source", .str (if error.isRejection then "native_rejection"
          else "python_transport")),
       ("control_unknown", .bool (!error.isRejection && control.isNone))] }

/-- `event.data.get("control_unknown")`, as a condition. -/
def leavesControlUnknown (event : Event) : Bool :=
  (event.data.get? "control_unknown").any Json.truthy

end RealClient

end MineBot
