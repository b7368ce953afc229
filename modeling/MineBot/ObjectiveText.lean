import MineBot.Doubles
import MineBot.Json
import MineBot.Text

/-!
# Objectives as text

`_objective_for`: the objective that the real client is asked for, as one
text of colon-separated fields. The parameters of an action are JSON;
what an action needs and does not find, or finds in another shape, makes
it no objective. Some conversions raise instead, as `int` and `float` do.

What `float` makes of a text and `str` of a value that is no text is the
interpreter's, and a parameter here.
-/

namespace MineBot

namespace Objective

open Double

structure Action where
  name : String
  params : JsonObject

structure BlockPos where
  x : Int
  y : Int
  z : Int
deriving DecidableEq

/-- What a conversion raises. -/
inductive ParamError where
  | typeError
  | valueError
  | overflowError
deriving DecidableEq

structure Python where
  /-- `float(text)` -/
  float : String → Except ParamError ℚ
  /-- `str(value)` of a value that is no text -/
  str : Json → String

/-! ## Conversions -/

/-- `params.get(key)` -/
def arg (params : JsonObject) (key : String) : Json := (params.get? key).getD .null

/-- `a or b` -/
def either (a b : Json) : Json := if a.truthy then a else b

/-- `int(value)` -/
def toInt (value : Json) : Except ParamError Int :=
  match pyInt value with
  | .ok n => .ok n
  | .error .typeError => .error .typeError
  | .error .valueError => .error .valueError

def int? (value : Json) : Option Int := (pyInt value).toOption

/-- `float(value)` -/
def toFloat (py : Python) : Json → Except ParamError ℚ
  | .int n => match nearest n with
    | some q => .ok q
    | none => .error .overflowError
  | .bool b => .ok (if b then 1 else 0)
  | .float q => .ok q
  | .str s => py.float s
  | .null | .arr _ | .obj _ => .error .typeError

/-- `except (TypeError, ValueError): return None` -/
def caught {α : Type} : Except ParamError α → Except ParamError (Option α)
  | .ok value => .ok (some value)
  | .error .overflowError => .error .overflowError
  | .error _ => .ok none

/-- The result of a subtraction of floats. -/
def rounded (q : ℚ) : ℚ := (nearest q).getD q

/-- `max(0, math.floor(q))` -/
def radius (q : ℚ) : Int := max 0 ⌊q⌋

def removePrefix (start text : String) : String :=
  if start.toList.isPrefixOf text.toList then .ofList (text.toList.drop start.length) else text

def unnamespace (value : String) : String := removePrefix "minecraft:" (pyStrip value)

/-- A text that is not blank. -/
def nameOf : Json → Option String
  | .str value => if pyStrip value = "" then none else some value
  | _ => none

def position : Json → Option BlockPos
  | .arr [x, y, z] =>
      match int? x, int? y, int? z with
      | some x, some y, some z => some ⟨x, y, z⟩
      | _, _, _ => none
  | _ => none

/-! ## Fields -/

/-- The fields of an f-string, between colons. -/
def record (fields : List String) : String := ":".intercalate fields

def BlockPos.fields (p : BlockPos) : List String := [toString p.x, toString p.y, toString p.z]

def nearText (p : BlockPos) (radius : Int) : String := record ("near" :: p.fields ++ [toString radius])

def blockText (p : BlockPos) : String := record ("block" :: p.fields)

def xzText (x z : Int) : String := record ["xz", toString x, toString z]

def yText (y : Int) : String := record ["y", toString y]

def awayText (p : BlockPos) (distance : Int) : String :=
  record ("away" :: p.fields ++ [toString distance])

def clearText (start stop : BlockPos) : String := record ("clear" :: start.fields ++ stop.fields)

def floatText (q : ℚ) : String := .ofList (shortest q).text

def followText (target : String) (radius : Int) (keepDistance : ℚ) : String :=
  record ["follow", target, toString radius, floatText keepDistance]

def farmText (range : Int) (p : BlockPos) : String := record (["farm", toString range] ++ p.fields)

def buildText (block : String) (p : BlockPos) (sx sy sz : Int) : String :=
  record (["build", block] ++ p.fields ++ [toString sx, toString sy, toString sz])

/-- The three forms of `mine`. -/
def mineText (blocks : List String) (expected : String) (quantity : Int) : String :=
  match blocks with
  | [block] =>
      if quantity = 1 then
        if expected = block then record ["mine", block] else record ["mine", block, expected]
      else record ["mine", toString quantity, block, expected]
  | blocks => record ["mine", toString quantity, ",".intercalate blocks, expected]

/-! ## Goals -/

section Goals

variable (py : Python) (goal : JsonObject)

/-- `str(goal.get("kind") or "")`; what is no text is none of the kinds. -/
def goalKind : String :=
  match goal.get? "kind" with
  | some (.str kind) => kind
  | _ => ""

/-- The position of a goal, or its three coordinates. -/
def goalPos : Json :=
  match goal.get? "pos" with
  | none | some .null => .arr [arg goal "x", arg goal "y", arg goal "z"]
  | some pos => pos

/-- `goal.get("range", goal.get("radius", default))` -/
def goalRadius (default : Json) : Json :=
  (goal.get? "range").getD ((goal.get? "radius").getD default)

def nearObjective (default : Json) : Except ParamError (Option String) :=
  match position (goalPos goal) with
  | none => .ok none
  | some p => do
      let value ← caught (toFloat py (goalRadius goal default))
      return value.map fun q => nearText p (radius q)

def blockObjective : Option String := (position (goalPos goal)).map blockText

def xzObjective : Option String :=
  match (goal.get? "x").bind int?, (goal.get? "z").bind int? with
  | some x, some z => some (xzText x z)
  | _, _ => none

def yObjective : Option String := ((goal.get? "y").bind int?).map yText

/-- `_goal_token` -/
def goalToken : Json → Except ParamError (Option String)
  | .obj goal =>
      if goalKind goal = "near" then nearObjective py goal (.int 1)
      else if goalKind goal = "xz" then .ok (xzObjective goal)
      else if goalKind goal = "y_level" then .ok (yObjective goal)
      else if goalKind goal = "block" then .ok (blockObjective goal)
      else .ok none
  | _ => .ok none

def avoidObjective : Option String :=
  match goal.get? "fallback" with
  | none | some .null =>
      match position (arg goal "pos"), int? ((goal.get? "min_distance").getD (.int 1)) with
      | some p, some distance => some (awayText p (max 1 distance))
      | _, _ => none
  | some _ => none

/-- `str(goal.get("mode") or "any") == "any"` -/
def modeAny : Bool :=
  match goal.get? "mode" with
  | none => true
  | some (.str mode) => mode = "" || mode = "any"
  | some mode => !mode.truthy

def compositeObjective : Except ParamError (Option String) :=
  if modeAny goal then
    match goal.get? "goals" with
    | some (.arr children) =>
        if 1 ≤ children.length ∧ children.length ≤ 64 then do
          let tokens ← children.mapM (goalToken py)
          return (tokens.mapM id).map fun tokens => "any:" ++ "|".intercalate tokens
        else .ok none
    | _ => .ok none
  else .ok none

/-- `_goal_objective` -/
def goalObjective (rawGoal arrivalRadius : Json) : Except ParamError (Option String) :=
  match rawGoal with
  | .obj goal =>
      if goalKind goal = "near" then nearObjective py goal (either arrivalRadius (.int 1))
      else if goalKind goal = "block" then .ok (blockObjective goal)
      else if goalKind goal = "xz" then .ok (xzObjective goal)
      else if goalKind goal = "y_level" then .ok (yObjective goal)
      else if goalKind goal = "avoid" then .ok (avoidObjective goal)
      else if goalKind goal = "composite" then compositeObjective py goal
      else .ok none
  | _ => .ok none

end Goals

/-! ## Processes -/

section Processes

variable (py : Python) (params : JsonObject)

/-- The blocks to mine, as they are named. -/
def mineBlocks : List String :=
  match params.get? "blocks" with
  | some (.str block) => [block]
  | some (.arr blocks) => blocks.map fun
      | .str block => block
      | value => py.str value
  | _ => match either (arg params "block") (arg params "target") with
    | .str block => [block]
    | _ => []

/-- The item to collect, or the first block. -/
def expectedItem (block : String) : String :=
  match nameOf (arg params "item") with
  | some item => unnamespace item
  | none => unnamespace block

/-- `_mine_objective` -/
def mineObjective : Option String :=
  match (mineBlocks py params).filterMap fun block => nameOf (.str block) with
  | [] => none
  | block :: blocks =>
      (int? ((params.get? "quantity").getD ((params.get? "count").getD (.int 1)))).map
        fun quantity => mineText ((block :: blocks).map unnamespace) (expectedItem params block)
          (max 1 (min 4096 quantity))

/-- `_item_objective`, which is called without an item. -/
def itemObjective (kind : String) (value : Json) : Option String :=
  (nameOf value).map fun name => record [kind, unnamespace name]

/-- The target of a move: its own, or the last waypoint. -/
def moveTarget : Json :=
  match position (arg params "target"), params.get? "waypoints" with
  | none, some (.arr waypoints) => waypoints.getLastD (arg params "target")
  | _, _ => arg params "target"

def moveObjective : Except ParamError (Option String) :=
  match position (moveTarget params) with
  | none => .ok none
  | some p => do
      let q ← toFloat py ((params.get? "arrival_radius").getD (.int 1))
      return some (nearText p (radius q))

/-- The first of three values that is not falsy. -/
def followTarget : Json :=
  either (arg params "target") (either (arg params "target_name") (arg params "target_type"))

def followObjective : Except ParamError (Option String) :=
  match nameOf (followTarget params) with
  | none => .ok none
  | some target => do
      let q ← toFloat py ((params.get? "keep_radius").getD (.int 3))
      let keepDistance := max 0 q
      return some (followText (pyStrip target) (radius (rounded (keepDistance - 1))) keepDistance)

def anchorOr (key : String) : Json := either (arg params "anchor") (arg params key)

def farmObjective : Except ParamError (Option String) :=
  match position (anchorOr params "pos") with
  | none => .ok none
  | some p => do
      let range ← toInt (either (arg params "range") (.int 16))
      return some (farmText (max 1 range) p)

def buildObjective : Except ParamError (Option String) :=
  match position (anchorOr params "origin"), params.get? "size" with
  | some p, some (.arr [sx, sy, sz]) =>
      match nameOf (either (arg params "block") (arg params "target")) with
      | none => .ok none
      | some block => do
          let sx ← toInt sx
          let sy ← toInt sy
          let sz ← toInt sz
          return some (buildText (unnamespace block) p sx sy sz)
  | _, _ => .ok none

def clearObjective : Option String :=
  match position (either (arg params "start") (arg params "anchor")), position (arg params "end") with
  | some start, some stop => some (clearText start stop)
  | _, _ => none

end Processes

/-- `_objective_for` -/
def objectiveFor (py : Python) (action : Action) : Except ParamError (Option String) :=
  let params := action.params
  let name := action.name
  if name = "navigate" then
    goalObjective py (arg params "goal") (arg params "final_reach_distance")
  else if name = "moveTo" ∨ name = "navigateTo" then moveObjective py params
  else if name = "mineResource" ∨ name = "baritoneMine" then .ok (mineObjective py params)
  else if name = "mineBlock" ∨ name = "collectBlock" then
    .ok ((position (arg params "target")).map fun p => clearText p p)
  else if name = "getToBlock" ∨ name = "baritoneGetToBlock" then
    .ok (itemObjective "get" (either (arg params "block") (arg params "target")))
  else if name = "explore" ∨ name = "baritoneExplore" then
    .ok ((position (anchorOr params "pos")).map fun p =>
      record ["explore", toString p.x, toString p.z])
  else if name = "followEntity" ∨ name = "baritoneFollow" then followObjective py params
  else if name = "pickupItems" ∨ name = "baritonePickup" then
    .ok (itemObjective "pickup" (either (arg params "item") (arg params "target")))
  else if name = "farmArea" ∨ name = "baritoneFarm" then farmObjective params
  else if name = "buildStructure" ∨ name = "baritoneBuild" then buildObjective params
  else if name = "clearArea" ∨ name = "baritoneClear" then
    .ok (clearObjective params)
  else if name = "elytraTravel" ∨ name = "baritoneElytra" then
    .ok ((position (either (arg params "target") (arg params "destination"))).map fun p =>
      record ("elytra" :: p.fields))
  else .ok none

end Objective

end MineBot
