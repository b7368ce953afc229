import MineBot.ObjectiveReader

/-!
# What an action asks for

A `Wish` is an action as it is meant: a goal or a process, with the
coordinates as the rationals they are, the names as they are given and the
quantities as `_objective_for` limits them. `wishOf` reads it out of the
parameters, where they are of the shape that the documentation of the
actions gives them: numbers where numbers belong, texts where names do.

`Agrees` says that the client has understood a wish: it starts a run of the
wish's kind, at the floor of each coordinate, and refuses the fixtures that
are too large. `Kept` is when that is so.
-/

namespace MineBot

namespace Objective

open Double

/-! ## Wishes -/

inductive Number where
  | int (n : Int)
  | float (q : ℚ)
deriving DecidableEq

namespace Number

def value : Number → ℚ
  | .int n => n
  | .float q => q

/-- `float` of a number. -/
def toFloat : Number → Option ℚ
  | .int n => nearest n
  | .float q => some q

end Number

structure Point where
  x : ℚ
  y : ℚ
  z : ℚ
deriving DecidableEq

inductive GoalWish where
  | block (p : Point)
  | xz (x z : ℚ)
  | near (p : Point) (range : Number)
  | yLevel (y : ℚ)
deriving DecidableEq

inductive Wish where
  | goal (goal : GoalWish)
  | away (p : Point) (distance : Int)
  | any (goals : List GoalWish)
  | mine (blocks : List String) (item : String) (quantity : Int)
  | get (block : String)
  | explore (x z : ℚ)
  | follow (target : String) (keep : Number)
  | pickup (item : String)
  | farm (range : Int) (anchor : Point)
  | build (block : String) (anchor : Point) (sx sy sz : Int)
  | clear (start stop : Point)
  | elytra (target : Point)
deriving DecidableEq

/-! ## Reading a wish -/

/-- `int` of a float. -/
def trunc (q : ℚ) : Int := q.num.tdiv q.den

def number : Json → Option Number
  | .int n => some (.int n)
  | .float q => some (.float q)
  | _ => none

def number? (value : Option Json) : Option ℚ := (value.bind number).map Number.value

def point : Json → Option Point
  | .arr [x, y, z] => do
      let x ← number x
      let y ← number y
      let z ← number z
      return ⟨x.value, y.value, z.value⟩
  | _ => none

section Goals

variable (goal : JsonObject)

def nearWish (default : Json) : Option GoalWish := do
  let p ← point (goalPos goal)
  let range ← number (goalRadius goal default)
  return .near p range

def blockWish : Option GoalWish := (point (goalPos goal)).map .block

def xzWish : Option GoalWish := do
  let x ← number? (goal.get? "x")
  let z ← number? (goal.get? "z")
  return .xz x z

def yWish : Option GoalWish := (number? (goal.get? "y")).map .yLevel

def tokenWish : Json → Option GoalWish
  | .obj goal =>
      if goalKind goal = "near" then nearWish goal (.int 1)
      else if goalKind goal = "xz" then xzWish goal
      else if goalKind goal = "y_level" then yWish goal
      else if goalKind goal = "block" then blockWish goal
      else none
  | _ => none

def avoidWish : Option Wish := do
  let p ← point (arg goal "pos")
  let distance ← number? (some ((goal.get? "min_distance").getD (.int 1)))
  return .away p (max 1 (trunc distance))

def compositeWish : Option Wish :=
  match goal.get? "goals" with
  | some (.arr children) => (children.mapM tokenWish).map .any
  | _ => none

def goalWish (rawGoal arrivalRadius : Json) : Option Wish :=
  match rawGoal with
  | .obj goal =>
      if goalKind goal = "near" then (nearWish goal (either arrivalRadius (.int 1))).map .goal
      else if goalKind goal = "block" then (blockWish goal).map .goal
      else if goalKind goal = "xz" then (xzWish goal).map .goal
      else if goalKind goal = "y_level" then (yWish goal).map .goal
      else if goalKind goal = "avoid" then avoidWish goal
      else if goalKind goal = "composite" then compositeWish goal
      else none
  | _ => none

end Goals

section Processes

variable (params : JsonObject)

/-- A block of a list, which is a text. -/
def blockName : Json → Option String
  | .str block => some block
  | _ => none

def wishedBlocks : Option (List String) :=
  match params.get? "blocks" with
  | some (.str block) => some [block]
  | some (.arr blocks) => blocks.mapM blockName
  | _ => (blockName (either (arg params "block") (arg params "target"))).map fun block => [block]

/-- The item to collect is the first block's, if none is named. -/
def wishedItem (blocks : List String) : Option String :=
  match nameOf (arg params "item") with
  | some item => some item
  | none => blocks.head?

def mineWish : Option Wish := do
  let blocks ← wishedBlocks params
  let item ← wishedItem params blocks
  let quantity ← number? (some ((params.get? "quantity").getD ((params.get? "count").getD (.int 1))))
  return .mine blocks item (max 1 (min 4096 (trunc quantity)))

def moveWish : Option Wish := do
  let p ← point (moveTarget params)
  let range ← number ((params.get? "arrival_radius").getD (.int 1))
  return .goal (.near p range)

def followWish : Option Wish := do
  let target ← nameOf (followTarget params)
  let keep ← number ((params.get? "keep_radius").getD (.int 3))
  return .follow target keep

def farmWish : Option Wish := do
  let p ← point (anchorOr params "pos")
  let range ← number? (some (either (arg params "range") (.int 16)))
  return .farm (max 1 (trunc range)) p

def buildWish : Option Wish := do
  let p ← point (anchorOr params "origin")
  let size ← (params.get? "size").bind point
  let block ← nameOf (either (arg params "block") (arg params "target"))
  return .build block p (trunc size.x) (trunc size.y) (trunc size.z)

def clearWish : Option Wish := do
  let start ← point (either (arg params "start") (arg params "anchor"))
  let stop ← point (arg params "end")
  return .clear start stop

end Processes

/-- What an action asks for. -/
def wishOf (action : Action) : Option Wish :=
  let params := action.params
  let name := action.name
  if name = "navigate" then goalWish (arg params "goal") (arg params "final_reach_distance")
  else if name = "moveTo" ∨ name = "navigateTo" then moveWish params
  else if name = "mineResource" ∨ name = "baritoneMine" then mineWish params
  else if name = "mineBlock" ∨ name = "collectBlock" then
    (point (arg params "target")).map fun p => .clear p p
  else if name = "getToBlock" ∨ name = "baritoneGetToBlock" then
    (nameOf (either (arg params "block") (arg params "target"))).map .get
  else if name = "explore" ∨ name = "baritoneExplore" then
    (point (anchorOr params "pos")).map fun p => .explore p.x p.z
  else if name = "followEntity" ∨ name = "baritoneFollow" then followWish params
  else if name = "pickupItems" ∨ name = "baritonePickup" then
    (nameOf (either (arg params "item") (arg params "target"))).map .pickup
  else if name = "farmArea" ∨ name = "baritoneFarm" then farmWish params
  else if name = "buildStructure" ∨ name = "baritoneBuild" then buildWish params
  else if name = "clearArea" ∨ name = "baritoneClear" then clearWish params
  else if name = "elytraTravel" ∨ name = "baritoneElytra" then
    (point (either (arg params "target") (arg params "destination"))).map .elytra
  else none

/-! ## Which wishes there are -/

def IsPath (cs : List Char) : Prop :=
  cs ≠ [] ∧ ∀ c ∈ cs, c.isLower ∨ c.isDigit ∨ c ∈ ['_', '-', '.', '/']

def IsNamespace (cs : List Char) : Prop :=
  cs ≠ [] ∧ ∀ c ∈ cs, c.isLower ∨ c.isDigit ∨ c ∈ ['_', '-', '.']

def IsResourceId (name : String) : Prop :=
  IsPath name.toList ∨
    ∃ ns path, name.toList = ns ++ ':' :: path ∧ IsNamespace ns ∧ IsPath path

def IsPlayerName (name : String) : Prop :=
  name ≠ "" ∧ ∀ c ∈ name.toList, c.isAlphanum ∨ c = '_'

def IsName (name : String) : Prop := IsResourceId name ∨ IsPlayerName name

def Number.Finite : Number → Prop
  | .int _ => True
  | .float q => IsDouble q

/-- A coordinate within the 32-bit range. -/
def InRange (q : ℚ) : Prop := -2 ^ 31 ≤ q ∧ q < 2 ^ 31

def Point.InRange (p : Point) : Prop :=
  Objective.InRange p.x ∧ Objective.InRange p.y ∧ Objective.InRange p.z

def GoalWish.Admissible : GoalWish → Prop
  | .block p => p.InRange
  | .xz x z => InRange x ∧ InRange z
  | .near p range => p.InRange ∧ range.Finite
  | .yLevel y => InRange y

/-- Coordinates and sizes are within the 32-bit range, floats are finite,
names are resource ids or player names. -/
def Wish.Admissible : Wish → Prop
  | .goal g => g.Admissible
  | .away p _ => p.InRange
  | .any goals => ∀ g ∈ goals, g.Admissible
  | .mine blocks item _ => (∀ block ∈ blocks, IsName block) ∧ IsName item
  | .get name | .pickup name => IsName name
  | .explore x z => InRange x ∧ InRange z
  | .follow target keep => IsName target ∧ keep.Finite
  | .farm _ anchor => anchor.InRange
  | .build block anchor sx sy sz =>
      IsName block ∧ anchor.InRange ∧ IsInt32 sx ∧ IsInt32 sy ∧ IsInt32 sz
  | .clear start stop => start.InRange ∧ stop.InRange
  | .elytra target => target.InRange

/-! ## Understanding a wish -/

def Point.floor (p : Point) : BlockPos := ⟨⌊p.x⌋, ⌊p.y⌋, ⌊p.z⌋⟩

def Number.radius (n : Number) : Int := Objective.radius n.value

/-- The distance a follower keeps, and the radius it searches. -/
def Number.keepDistance (n : Number) : ℚ := max 0 n.value

def Number.keepRadius (n : Number) : Int := Objective.radius (n.keepDistance - 1)

/-- A name up to the prefix `minecraft:`. -/
def plain (name : String) : String := removePrefix "minecraft:" name

def GoalWish.meant : GoalWish → GoalToken
  | .block p => .block p.floor
  | .xz x z => .xz ⌊x⌋ ⌊z⌋
  | .near p range => .near p.floor range.radius
  | .yLevel y => .yLevel ⌊y⌋

/-- A run that does what a wish asks for. -/
def Wish.Meant : Wish → Candidate → Prop
  | .goal g, c => c.goal = some (.token g.meant)
  | .away p distance, c => c.goal = some (.runAway (.finite distance) p.floor)
  | .any goals, c => c.goal = some (.composite (goals.map GoalWish.meant))
  | .mine blocks item quantity, c => c.goal = none ∧ c.kind = "mine" ∧
      c.targets.map plain = blocks.map plain ∧ c.item.map plain = some (plain item) ∧
      c.mineQuantity = quantity
  | .get block, c => c.goal = none ∧ c.kind = "get" ∧ c.target.map plain = some (plain block)
  | .explore x z, c => c.goal = none ∧ c.kind = "explore" ∧
      c.anchor.map (fun p => (p.x, p.z)) = some (⌊x⌋, ⌊z⌋)
  | .follow target keep, c => c.goal = none ∧ c.kind = "follow" ∧
      c.target.map plain = some (plain target) ∧ c.range = keep.keepRadius ∧
      c.followKeepDistance = .finite keep.keepDistance
  | .pickup item, c => c.goal = none ∧ c.kind = "pickup" ∧
      c.target.map plain = some (plain item) ∧ c.item.map plain = some (plain item)
  | .farm range anchor, c => c.goal = none ∧ c.kind = "farm" ∧ c.range = range ∧
      c.anchor = some anchor.floor
  | .build block anchor sx sy sz, c => c.goal = none ∧ c.kind = "build" ∧
      c.target.map plain = some (plain block) ∧ c.anchor = some anchor.floor ∧
      c.sx = sx ∧ c.sy = sy ∧ c.sz = sz
  | .clear start stop, c => c.goal = none ∧ c.kind = "clear" ∧
      c.anchor = some start.floor ∧ c.stop = some stop.floor
  | .elytra target, c => c.goal = none ∧ c.kind = "elytra" ∧ c.anchor = some target.floor

/-- The fixtures that are refused: a size is not positive, or they have more
than 256 blocks. -/
def Wish.Refused : Wish → Prop
  | .build _ _ sx sy sz => ¬ (0 < sx ∧ 0 < sy ∧ 0 < sz ∧ sx * sy * sz ≤ 256)
  | _ => False

/-- The client has understood the wish. -/
def Agrees (w : Wish) (result : Except StartError Candidate) : Prop :=
  (w.Refused → ∃ e, result = .error e) ∧
    (¬ w.Refused → ∃ c, result = .ok c ∧ w.Meant c)

/-! ## When it does -/

/-- A coordinate that `int` rounds down. -/
def Whole (q : ℚ) : Prop := 0 ≤ q ∨ q = ⌊q⌋

def Point.Whole (p : Point) : Prop := Objective.Whole p.x ∧ Objective.Whole p.y ∧ Objective.Whole p.z

/-- A name without a namespace other than `minecraft`. -/
def Plain (name : String) : Prop := ':' ∉ (plain name).toList

instance : DecidablePred Plain := fun _ => inferInstanceAs (Decidable (¬ _))

def GoalWish.Kept : GoalWish → Prop
  | .block p => p.Whole
  | .xz x z => Whole x ∧ Whole z
  | .near p range => p.Whole ∧ range.radius < 2 ^ 31
  | .yLevel y => Whole y

/-- No coordinate is negative and not whole, no name has a namespace of its
own (nor any, if it is followed), distances fit the client's types, and the
number of blocks of a refused fixture is still over 256 as a 32-bit integer. -/
def Wish.Kept : Wish → Prop
  | .goal g => g.Kept
  | .away p distance => p.Whole ∧ nearest distance = some (distance : ℚ)
  | .any goals => ∀ g ∈ goals, g.Kept
  | .mine blocks item _ => (∀ block ∈ blocks, Plain block) ∧ Plain item
  | .get name | .pickup name => Plain name
  | .explore x z => Whole x ∧ Whole z
  | .follow target keep => ':' ∉ target.toList ∧ keep.keepRadius < 2 ^ 31
  | .farm range anchor => range < 2 ^ 31 ∧ anchor.Whole
  | .build block anchor sx sy sz =>
      if 0 < sx ∧ 0 < sy ∧ 0 < sz then
        if sx * sy * sz ≤ 256 then Plain block ∧ anchor.Whole
        else Plain block → 256 < Int.bmod (sx * sy * sz) (2 ^ 32)
      else True
  | .clear start stop => start.Whole ∧ stop.Whole
  | .elytra target => target.Whole

end Objective

end MineBot
