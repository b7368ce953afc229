import Mathlib
import MineBot.ObjectiveText

/-!
# The client's reading of an objective

The part of `MineBotClientBody.start` that takes the text of an objective
apart: a chain of branches on the first field and the number of fields,
each of which reads its own fields as 32-bit integers. What it makes of
the text is the `Run` that Baritone is then given.
-/

namespace MineBot

namespace Objective

open Double

/-! ## Java's numbers -/

inductive JavaDouble where
  | finite (q : ℚ)
  | infinite (negative : Bool)
deriving DecidableEq

inductive StartError where
  | illegalArgument (message : String)
  | numberFormat
deriving DecidableEq

def IsInt32 (n : Int) : Prop := -2 ^ 31 ≤ n ∧ n < 2 ^ 31

instance : DecidablePred IsInt32 := fun _ => inferInstanceAs (Decidable (_ ∧ _))

/-- `Integer.parseInt`, for the ASCII digits. -/
def parseInt (text : String) : Except StartError Int :=
  match readSigned text.toList with
  | some n => if IsInt32 n then .ok n else .error .numberFormat
  | none => .error .numberFormat

/-- The double nearest to a decimal of this sign. -/
def toDouble (negative : Bool) (cs : List Char) : Except StartError JavaDouble :=
  match readDecimal cs with
  | none => .error .numberFormat
  | some d =>
      match nearest (if negative then -d.value else d.value) with
      | some q => .ok (.finite q)
      | none => .ok (.infinite negative)

/-- `Double.parseDouble`, for the decimal forms without a suffix. -/
def parseDouble (text : String) : Except StartError JavaDouble :=
  match text.toList with
  | '-' :: cs => toDouble true cs
  | '+' :: cs => toDouble false cs
  | cs => toDouble false cs

/-- The product of two `int`s. -/
def mulInt (a b : Int) : Int := Int.bmod (a * b) (2 ^ 32)

/-! ## Goals -/

inductive GoalToken where
  | block (p : BlockPos)
  | xz (x z : Int)
  | near (p : BlockPos) (range : Int)
  | yLevel (y : Int)
deriving DecidableEq

inductive Goal where
  | token (goal : GoalToken)
  | runAway (distance : JavaDouble) (p : BlockPos)
  | composite (goals : List GoalToken)
deriving DecidableEq

/-- `text.split(separator, -1)` -/
def split (separator : Char) (text : String) : List String :=
  (text.toList.splitOn separator).map String.ofList

/-- Three fields as a position. -/
def parsePos (x y z : String) : Except StartError BlockPos := do
  let x ← parseInt x
  let y ← parseInt y
  let z ← parseInt z
  return ⟨x, y, z⟩

def parseNear (x y z range : String) : Except StartError GoalToken := do
  let p ← parsePos x y z
  let range ← parseInt range
  return .near p range

def parseXZ (x z : String) : Except StartError GoalToken := do
  let x ← parseInt x
  let z ← parseInt z
  return .xz x z

def parseYLevel (y : String) : Except StartError GoalToken := do
  let y ← parseInt y
  return .yLevel y

def parseBlock (x y z : String) : Except StartError GoalToken := do
  let p ← parsePos x y z
  return .block p

/-- `catch (NumberFormatException error)` -/
def catching {α : Type} (message : String) : Except StartError α → Except StartError α
  | .error .numberFormat => .error (.illegalArgument message)
  | result => result

def parseGoalToken (token : String) : Except StartError GoalToken :=
  catching "invalid_goal_coordinates" <|
    match split ':' token with
    | "near" :: fields => match fields with
      | [x, y, z, range] => parseNear x y z range
      | _ => .error (.illegalArgument "invalid_near_goal")
    | "xz" :: fields => match fields with
      | [x, z] => parseXZ x z
      | _ => .error (.illegalArgument "invalid_xz_goal")
    | "y" :: fields => match fields with
      | [y] => parseYLevel y
      | _ => .error (.illegalArgument "invalid_y_goal")
    | "block" :: fields => match fields with
      | [x, y, z] => parseBlock x y z
      | _ => .error (.illegalArgument "invalid_block_goal")
    | _ => .error (.illegalArgument "unsupported_goal_kind")

def parseAway (x y z distance : String) : Except StartError Goal := do
  let distance ← parseDouble distance
  let p ← parsePos x y z
  return .runAway distance p

def parseComposite (objective : String) : Except StartError Goal :=
  let alternatives := split '|' (.ofList (objective.toList.drop 4))
  if alternatives.length < 1 ∨ 64 < alternatives.length then
    .error (.illegalArgument "invalid_goal_composite_size")
  else do
    let goals ← alternatives.mapM parseGoalToken
    return .composite goals

def parseGoalObjective (objective : String) : Except StartError Goal :=
  catching "invalid_goal_coordinates" <|
    match split ':' objective with
    | ["y", y] => (parseYLevel y).map .token
    | ["block", x, y, z] => (parseBlock x y z).map .token
    | ["away", x, y, z, distance] => parseAway x y z distance
    | "any" :: _ =>
        if "any:".toList.isPrefixOf objective.toList then parseComposite objective
        else .error (.illegalArgument "invalid_goal_objective")
    | _ => .error (.illegalArgument "invalid_goal_objective")

/-! ## Runs -/

/-- What `start` puts into the `Run` of an objective. -/
structure Candidate where
  kind : String
  goal : Option Goal := none
  target : Option String := none
  targets : List String := []
  item : Option String := none
  mineQuantity : Int := 1
  range : Int := 0
  followKeepDistance : JavaDouble := .finite 3
  anchor : Option BlockPos := none
  stop : Option BlockPos := none
  sx : Int := 0
  sy : Int := 0
  sz : Int := 0
deriving DecidableEq

def isBlank (text : String) : Bool := text.toList.all isPySpace

def mineCandidate (quantity : Int) (blocks item : String) : Except StartError Candidate :=
  if quantity < 1 ∨ 4096 < quantity then .error (.illegalArgument "invalid_mine_quantity")
  else
    let targets := split ',' blocks
    .ok { kind := "mine", mineQuantity := quantity, targets, target := targets.head?,
          item := some item }

/-- `mine` with a quantity, a list of blocks and an item. -/
def startMine (quantity blocks item : String) : Except StartError Candidate := do
  let quantity ← parseInt quantity
  mineCandidate quantity blocks item

/-- A distance that can be kept. -/
def checkDistance (distance : JavaDouble) : Except StartError JavaDouble :=
  match distance with
  | .finite q => if q < 0 then .error (.illegalArgument "invalid_follow_distance") else .ok distance
  | .infinite _ => .error (.illegalArgument "invalid_follow_distance")

def followRange : List String → Except StartError Int
  | [] => .ok 0
  | range :: _ => parseInt range

def followDistance (range : Int) : List String → Except StartError JavaDouble
  | [_, distance] => parseDouble distance
  | _ => .ok (.finite (max 3 range))

/-- `follow` and `pickup`, with the fields behind the target. -/
def startFollow (kind target : String) (rest : List String) : Except StartError Candidate := do
  let range ← followRange rest
  let distance ← followDistance range rest
  let distance ← checkDistance distance
  return { kind, target := some target, range, followKeepDistance := distance,
           item := if kind = "pickup" then some target else none }

def startExplore (x z : String) : Except StartError Candidate := do
  let x ← parseInt x
  let z ← parseInt z
  return { kind := "explore", anchor := some ⟨x, 0, z⟩ }

def startFarm (range x y z : String) : Except StartError Candidate := do
  let range ← parseInt range
  let anchor ← parsePos x y z
  return { kind := "farm", range, anchor := some anchor }

/-- The sizes of a fixture, multiplied as `int`s. -/
def refusedSize (sx sy sz : Int) : Bool :=
  sx < 1 || sy < 1 || sz < 1 || 256 < mulInt (mulInt sx sy) sz

def buildCandidate (block : String) (anchor : BlockPos) (sx sy sz : Int) :
    Except StartError Candidate :=
  if refusedSize sx sy sz then .error (.illegalArgument "invalid_fixture_size")
  else .ok { kind := "build", target := some block, anchor := some anchor, sx, sy, sz }

def startBuild (block x y z sx sy sz : String) : Except StartError Candidate := do
  let anchor ← parsePos x y z
  let sx ← parseInt sx
  let sy ← parseInt sy
  let sz ← parseInt sz
  buildCandidate block anchor sx sy sz

def startClear (x y z x' y' z' : String) : Except StartError Candidate := do
  let anchor ← parsePos x y z
  let stop ← parsePos x' y' z'
  return { kind := "clear", anchor := some anchor, stop := some stop }

def startGoal (kind : String) (goal : Except StartError Goal) : Except StartError Candidate := do
  let goal ← goal
  return { kind, goal := some goal }

def unsupported : Except StartError Candidate := .error (.illegalArgument "unsupported_objective")

/-- The branches of `start`, in their order: `goto` and `navigate` read their
coordinates with a message of their own. -/
def startCandidate (objective : String) : Except StartError Candidate :=
  match split ':' objective with
  | [] => unsupported
  | kind :: fields =>
      if kind = "any" ∨ kind = "away" ∨ kind = "y" ∨ kind = "block" then
        startGoal kind (parseGoalObjective objective)
      else match fields with
      | [a] =>
          if kind = "mine" ∧ !isBlank a then
            .ok { kind, target := some a, targets := [a], item := some a }
          else if kind = "get" then .ok { kind, target := some a }
          else if kind = "follow" ∨ kind = "pickup" then startFollow kind a []
          else unsupported
      | [a, b] =>
          if kind = "mine" ∧ !isBlank a then
            .ok { kind, target := some a, targets := [a], item := some b }
          else if kind = "xz" then startGoal kind ((parseXZ a b).map .token)
          else if kind = "explore" then startExplore a b
          else if kind = "follow" then startFollow kind a [b]
          else unsupported
      | [a, b, c] =>
          if kind = "goto" ∨ kind = "navigate" then
            startGoal kind (catching "invalid_coordinates" ((parseBlock a b c).map .token))
          else if kind = "mine" ∧ !isBlank a then startMine a b c
          else if kind = "follow" then startFollow kind a [b, c]
          else if kind = "elytra" then (parsePos a b c).map fun p => { kind, anchor := some p }
          else unsupported
      | [a, b, c, d] =>
          if kind = "near" then startGoal kind ((parseNear a b c d).map .token)
          else if kind = "farm" then startFarm a b c d
          else unsupported
      | [a, b, c, d, e, f] =>
          if kind = "clear" then startClear a b c d e f else unsupported
      | [a, b, c, d, e, f, g] =>
          if kind = "build" then startBuild a b c d e f g else unsupported
      | _ => unsupported

end Objective

end MineBot
