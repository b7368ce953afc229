import MineBot.Governance

/-!
# Moves over a grid

What the planner and the rechecker of `navigation.py` share: the cells of
the loaded grid, the overlay of planned effects, the cost model, and the
candidate move towards a neighbouring cell.

Governance answers through `Legality`, one function a question, which may
change its own state (a break of ambiguous risk raises a challenge). Costs
are of any type: which path is cheapest depends on their arithmetic, what
a path does to the grid does not.
-/

namespace MineBot

/-! ## Placing blocks -/

inductive PlaceContext where
  | travel
  | work
  | farm
  | recovery
  | direct
deriving DecidableEq

inductive PlaceDetails where
  | none
  | region (name : String)
  | placed (bot : String) (context : PlaceContext)

/-- `LegalityDecision`, as `can_place` fills it. -/
structure PlaceDecision where
  allowed : Bool
  reason : String
  isProtected : Bool := false
  naturalRegion : Option String := none
  details : PlaceDetails := .none

/-- `can_place`. -/
def GovernancePolicy.canPlace (p : GovernancePolicy) (pos : Position) (blockType : String)
    (context : PlaceContext) (bot : String) : PlaceDecision :=
  match regionContaining p.protectedRegions pos with
  | some region =>
      { allowed := false, reason := "protected_region", isProtected := true
        details := .region region.name }
  | none =>
      let natural := regionContaining p.naturalRegions pos
      if natural.isNone ∧ context ≠ .direct then
        { allowed := false, reason := "unknown_provenance", isProtected := true }
      else if normalizeBlockType blockType ∈ stronglyProtectedTypes
          ∧ (context = .travel ∨ context = .recovery) then
        { allowed := false, reason := "protected_type", isProtected := true }
      else
        { allowed := true, reason := "allowed_place", naturalRegion := natural.map (·.name)
          details := .placed bot context }

/-- What the cost model asks of governance. -/
structure Legality (γ : Type) where
  canBreak : Position → String → BreakContext → γ → LegalityDecision × γ
  canPlace : Position → String → PlaceContext → γ → PlaceDecision × γ

/-- Readings that a policy without an assessor never looks at. -/
def BreakReadings.unread (n : Nat) : BreakReadings Unit where
  answer := .fails ""
  authorizeNow := n
  authorizeScopes := (none, none)
  pendingNow := n
  pendingScopes := (none, none)
  challengeId := ""

/-- A policy that is asked; the `n`-th break takes the `n`-th readings. -/
def GovernancePolicy.legality {σ : Type} (pyStr : σ → String) (readings : Nat → BreakReadings σ) :
    Legality (GovernancePolicy × Nat) where
  canBreak pos blockType context g :=
    let answer := g.1.canBreak pyStr ⟨pos, blockType, context, false, none, none⟩ (readings g.2)
    (answer.1, answer.2, g.2 + 1)
  canPlace pos blockType context g := (g.1.canPlace pos blockType context "planner", g)

/-! ## Moves -/

inductive MoveKind where
  | walk
  | diagonal
  | ascend
  | pillar
  | descend
  | downward
  | swim
  | fall
  | «break»
  | place
  | «open»
  | invalid
deriving DecidableEq

/-- `movement_cancel_profile`: every decision carries its kind's. -/
def movementCancelProfile : MoveKind → Bool × String
  | .walk | .diagonal => (true, "immediate")
  | .descend => (true, "after_step")
  | .downward => (false, "finish_or_abort_controller")
  | .ascend => (false, "settle_on_support")
  | .pillar => (false, "finish_or_abort_controller")
  | .swim => (false, "surface_or_stable_water")
  | .fall => (false, "land_first")
  | .break | .place | .open => (false, "finish_or_abort_controller")
  | .invalid => (false, "invalid")

/-- The kinds `_simple_move` prices. -/
inductive SimpleMove where
  | walk
  | diagonal
  | ascend
  | pillar
  | descend
  | downward
  | swim
deriving DecidableEq

def SimpleMove.kind : SimpleMove → MoveKind
  | .walk => .walk
  | .diagonal => .diagonal
  | .ascend => .ascend
  | .pillar => .pillar
  | .descend => .descend
  | .downward => .downward
  | .swim => .swim

/-- `MovementCandidate`, by what the cost model reads of each kind. -/
inductive MovementCandidate where
  | invalid (pos : Position) (reason : String)
  | simple (move : SimpleMove) (pos : Position)
  | fall (pos : Position) (fallDepth : Int)
  | «break» (pos : Position) (blockType : String) (context : BreakContext)
  | place (pos : Position) (blockType : String) (context : PlaceContext)
      (placeFace : Option String)
  | «open» (pos : Position) (blockType : String) (interactionTarget : Option Position)

/-! ## Costs -/

/-- The arithmetic of costs: floats in the source. -/
structure CostNumbers (κ : Type) where
  /-- a literal -/
  lit : Rat → κ
  inf : κ
  ofInt : Int → κ
  add : κ → κ → κ
  mul : κ → κ → κ

inductive CostDiagnostics where
  | none
  | fall (fallDepth maxSafeFall : Int)
  | «break» (legality : LegalityDecision) (context : BreakContext)
  | breakDenied (legality : LegalityDecision)
  | place (legality : PlaceDecision) (context : PlaceContext) (blockType purpose : String)
  | placeDenied (legality : PlaceDecision)
  | «open» (blockType : String)

structure CostDecision (κ : Type) where
  passable : Bool
  cost : κ
  reason : String
  kind : MoveKind
  pos : Position
  diagnostics : CostDiagnostics
  placeFace : Option String := none
  fallDepth : Int := 0
  interactionTarget : Option Position := none

def SimpleMove.cost {κ : Type} (num : CostNumbers κ) : SimpleMove → κ
  | .walk => num.lit 1
  | .diagonal => num.lit (14 / 10)
  | .ascend => num.lit 2
  | .pillar => num.lit 8
  | .descend => num.lit (12 / 10)
  | .downward => num.lit 7
  | .swim => num.lit 3

def SimpleMove.reason : SimpleMove → String
  | .walk => "walk"
  | .diagonal => "diagonal"
  | .ascend => "ascend"
  | .pillar => "pillar"
  | .descend => "descend"
  | .downward => "downward"
  | .swim => "swim"

/-- `MAX_SAFE_FALL`. -/
def maxSafeFall : Int := 3

section Costs

variable {γ κ : Type} (legality : Legality γ) (num : CostNumbers κ)

/-- `_evaluate_fall`. -/
def evaluateFall (pos : Position) (fallDepth : Int) : CostDecision κ :=
  let depth := max 1 fallDepth
  if maxSafeFall < depth then
    { passable := false, cost := num.inf, reason := "fall_denied:unsafe_depth", kind := .fall
      pos := pos, diagnostics := .fall depth maxSafeFall }
  else
    { passable := true, cost := num.add (num.lit 4) (num.ofInt depth), reason := "fall"
      kind := .fall, pos := pos, diagnostics := .fall depth maxSafeFall, fallDepth := depth }

/-- `_evaluate_break`. -/
def evaluateBreak (pos : Position) (blockType : String) (context : BreakContext) (g : γ) :
    CostDecision κ × γ :=
  let (decision, g) := legality.canBreak pos blockType context g
  if decision.allowed then
    ({ passable := true, cost := if decision.botOwned then num.lit 2 else num.lit 6
       reason := "break_allowed:" ++ decision.reason, kind := .break, pos := pos
       diagnostics := .break decision context }, g)
  else
    ({ passable := false, cost := num.inf, reason := "break_denied:" ++ decision.reason
       kind := .break, pos := pos, diagnostics := .breakDenied decision }, g)

/-- `_evaluate_place`. -/
def evaluatePlace (pos : Position) (blockType : String) (context : PlaceContext)
    (placeFace : Option String) (g : γ) : CostDecision κ × γ :=
  let (decision, g) := legality.canPlace pos blockType context g
  if decision.allowed then
    ({ passable := true, cost := num.lit 3, reason := "place_allowed:" ++ decision.reason
       kind := .place, pos := pos, diagnostics := .place decision context blockType "scaffold"
       placeFace := placeFace }, g)
  else
    ({ passable := false, cost := num.inf, reason := "place_denied:" ++ decision.reason
       kind := .place, pos := pos, diagnostics := .placeDenied decision }, g)

/-- `NavigationCostModel.evaluate`. -/
def evaluate (candidate : MovementCandidate) (g : γ) : CostDecision κ × γ :=
  match candidate with
  | .invalid pos reason =>
      ({ passable := false, cost := num.inf, reason := reason, kind := .invalid, pos := pos
         diagnostics := .none }, g)
  | .simple move pos =>
      ({ passable := true, cost := move.cost num, reason := move.reason, kind := move.kind
         pos := pos, diagnostics := .none }, g)
  | .fall pos fallDepth => (evaluateFall num pos fallDepth, g)
  | .break pos blockType context => evaluateBreak legality num pos blockType context g
  | .place pos blockType context placeFace =>
      evaluatePlace legality num pos blockType context placeFace g
  | .open pos blockType interactionTarget =>
      ({ passable := true, cost := num.lit 1, reason := "open_allowed", kind := .open, pos := pos
         diagnostics := .open blockType, interactionTarget := interactionTarget }, g)

end Costs

/-! ## The grid and its overlay -/

structure GridCell where
  blockType : String := "air"
  walkable : Bool := true
  liquid : Bool := false
  fallDepth : Int := 0
  requiresSupport : Bool := false
  headroomBlock : Option String := none
deriving DecidableEq

/-- `GridWorld`: the loaded cells. -/
abbrev GridWorld := Dict Position GridCell

/-- `VirtualBlockOverlay`, the newest entry first. -/
structure VirtualBlockOverlay where
  blocks : Dict Position GridCell
deriving DecidableEq

namespace VirtualBlockOverlay

/-- `cell_at`. -/
def cellAt (overlay : VirtualBlockOverlay) (world : GridWorld) (pos : Position) :
    Option GridCell :=
  match overlay.blocks.get? pos with
  | some cell => some cell
  | none => world.get? pos

/-- `set_cell`. -/
def setCell (overlay : VirtualBlockOverlay) (pos : Position) (cell : GridCell) :
    VirtualBlockOverlay := ⟨(pos, cell) :: overlay.blocks⟩

theorem cellAt_setCell (overlay : VirtualBlockOverlay) (world : GridWorld) (pos pos' : Position)
    (cell : GridCell) : (overlay.setCell pos cell).cellAt world pos'
      = if pos = pos' then some cell else overlay.cellAt world pos' := by
  simp only [cellAt, setCell, Dict.get?_cons]
  by_cases h : pos = pos'
  · rw [if_pos h, if_pos h]
  · rw [if_neg h, if_neg h]

end VirtualBlockOverlay

/-- `_is_door_type`. -/
def isDoorType (blockType : String) : Bool :=
  "_door".toList.isSuffixOf (normalizeBlockType blockType).toList

/-- `_is_pass_openable`. -/
def isPassOpenable (blockType : String) : Bool :=
  let normalized := normalizeBlockType blockType
  ("_door".toList.isSuffixOf normalized.toList || "_trapdoor".toList.isSuffixOf normalized.toList
      || "_fence_gate".toList.isSuffixOf normalized.toList)
    && normalized ∉ ["iron_door", "iron_trapdoor"]

/-- `_open_headroom_block_type`. -/
def openHeadroomBlockType (blockType : String) : Option String :=
  if isDoorType blockType then some blockType else none

/-- `FALLING_BLOCK_TYPES`. -/
def fallingBlockTypes : List String := ["sand", "gravel"]

def Position.up (pos : Position) : Position := (pos.1, pos.2.1 + 1, pos.2.2)

def Position.down (pos : Position) : Position := (pos.1, pos.2.1 - 1, pos.2.2)

/-- `_horizontal_face_from`. -/
def horizontalFaceFrom (origin target : Position) : Option String :=
  let dx := target.1 - origin.1
  let dz := target.2.2 - origin.2.2
  if dx.natAbs ≥ dz.natAbs ∧ dx > 0 then some "west"
  else if dx.natAbs ≥ dz.natAbs ∧ dx < 0 then some "east"
  else if dz > 0 then some "north"
  else if dz < 0 then some "south"
  else none

/-- `_is_horizontal_diagonal`. -/
def isHorizontalDiagonal (origin target : Position) : Bool :=
  target.2.1 = origin.2.1 ∧ (target.1 - origin.1).natAbs = 1
    ∧ (target.2.2 - origin.2.2).natAbs = 1

/-! ## Candidates -/

section Candidates

variable (world : GridWorld) (overlay : VirtualBlockOverlay)

/-- `_has_support`. -/
def hasSupport (pos : Position) : Bool :=
  match overlay.cellAt world pos.down with
  | some support => !support.walkable && !support.liquid
  | none => false

/-- `_blocked_headroom`. -/
def blockedHeadroom (pos : Position) (cell : GridCell) : Option (Position × String) :=
  match overlay.cellAt world pos.up with
  | some headroom =>
      if !headroom.walkable || headroom.liquid then some (pos.up, headroom.blockType) else none
  | none => match cell.headroomBlock with
      | some block => if block = "" then none else some (pos.up, block)
      | none => none

/-- The cell holds a block that falls when what carries it goes. -/
def gravityStacked (pos : Position) : Bool :=
  match overlay.cellAt world pos with
  | some cell =>
      normalizeBlockType cell.blockType ∈ fallingBlockTypes && !cell.walkable && !cell.liquid
  | none => false

/-- `_gravity_break_hazard`: the reason of the `INVALID` candidate. -/
def gravityBreakHazard (pos : Position) (blockType : String) : Option String :=
  if normalizeBlockType blockType ∉ fallingBlockTypes then none
  else if [(pos.1 + 1, pos.2.1, pos.2.2), (pos.1 - 1, pos.2.1, pos.2.2),
      (pos.1, pos.2.1, pos.2.2 + 1), (pos.1, pos.2.1, pos.2.2 - 1), pos.up, pos.down].any
        fun neighbor => (overlay.cellAt world neighbor).any (·.liquid) then
    some "break_denied:gravity_liquid_adjacent"
  else if gravityStacked world overlay pos.up || gravityStacked world overlay pos.down then
    some "break_denied:gravity_stack"
  else none

/-- `_openable_pass_candidate`. -/
def openablePassCandidate (pos : Position) (cell : GridCell) : Option MovementCandidate :=
  if !isPassOpenable cell.blockType then none
  else
    let isDoor (pos : Position) : Bool := (overlay.cellAt world pos).any (isDoorType ·.blockType)
    let closed : Bool := (overlay.cellAt world pos).any (!·.walkable)
    let target := if isDoorType cell.blockType && closed && !isDoor pos.up && isDoor pos.down
      then pos.down else pos
    some (.open pos cell.blockType (some target))

variable {γ κ : Type} (legality : Legality γ) (num : CostNumbers κ) (context : BreakContext)

/-- One corner of `_diagonal_blocker`. -/
def cornerBlocker (corner : Position) (g : γ) : Option MovementCandidate × γ :=
  match overlay.cellAt world corner with
  | none => (some (.invalid corner "diagonal_corner_unloaded"), g)
  | some cell =>
      match blockedHeadroom world overlay corner cell with
      | some (headroom, _) => (some (.invalid headroom "diagonal_corner_headroom_blocked"), g)
      | none =>
          if cell.walkable && !cell.liquid then (none, g)
          else match gravityBreakHazard world overlay corner cell.blockType with
          | some reason => (some (.invalid corner reason), g)
          | none =>
              let (decision, g) := evaluate legality num (.break corner cell.blockType context) g
              (some (.invalid corner ("diagonal_corner_blocked:" ++ decision.reason)), g)

/-- `_diagonal_blocker`. -/
def diagonalBlocker (current pos : Position) (g : γ) : Option MovementCandidate × γ :=
  if !isHorizontalDiagonal current pos then (none, g)
  else match cornerBlocker world overlay legality num context (pos.1, current.2.1, current.2.2) g
    with
    | (some blocker, g) => (some blocker, g)
    | (none, g) =>
        cornerBlocker world overlay legality num context (current.1, current.2.1, pos.2.2) g

/-- A break of the cell, unless it is a gravity hazard. -/
def breakCandidate (pos : Position) (blockType : String) : MovementCandidate :=
  match gravityBreakHazard world overlay pos blockType with
  | some reason => .invalid pos reason
  | none => .break pos blockType context

/-- The part of `_candidate_for` for a walkable cell. -/
def walkableCandidate (current pos : Position) (cell : GridCell) (g : γ) : MovementCandidate × γ :=
  let dx := pos.1 - current.1
  let dy := pos.2.1 - current.2.1
  let dz := pos.2.2 - current.2.2
  if (overlay.cellAt world current).any (·.requiresSupport) && dy > 0 then
    (.invalid pos "ascend_requires_support", g)
  else if cell.liquid then (.simple .swim pos, g)
  else if dy > 0 then (.simple (if dx = 0 ∧ dz = 0 then .pillar else .ascend) pos, g)
  else if dy < 0 then
    (if cell.fallDepth > 1 then .fall pos cell.fallDepth else .simple .descend pos, g)
  else if dx ≠ 0 ∧ dz ≠ 0 then
    match diagonalBlocker world overlay legality num context current pos g with
    | (some blocker, g) => (blocker, g)
    | (none, g) => (.simple .diagonal pos, g)
  else (.simple .walk pos, g)

/-- The part of `_candidate_for` for a cell that is not walkable. -/
def solidCandidate (current pos : Position) (cell : GridCell) (g : γ) : MovementCandidate × γ :=
  match openablePassCandidate world overlay pos cell with
  | some candidate => (candidate, g)
  | none =>
      if pos = current.down then
        let (decision, g) := evaluate legality num (.break pos cell.blockType context) g
        if decision.passable then (.simple .downward pos, g)
        else (breakCandidate world overlay context pos cell.blockType, g)
      else (breakCandidate world overlay context pos cell.blockType, g)

/-- `_candidate_for`. -/
def candidateFor (current pos : Position) (cell : GridCell) (g : γ) : MovementCandidate × γ :=
  if (overlay.cellAt world current).any (·.liquid) && pos = current.up && cell.walkable then
    (.simple .swim pos, g)
  else if cell.requiresSupport && !hasSupport world overlay pos then
    (.place pos.down "cobblestone" .travel (horizontalFaceFrom current pos), g)
  else match blockedHeadroom world overlay pos cell with
  | some (headroom, blockType) => (breakCandidate world overlay context headroom blockType, g)
  | none =>
      if cell.walkable then
        walkableCandidate world overlay legality num context current pos cell g
      else solidCandidate world overlay legality num context current pos cell g

end Candidates

/-! ## Effects of a step -/

/-- A cell opened up by a break. -/
def airCell : GridCell := {}

/-- The cells of an opened door, gate or trapdoor. -/
def VirtualBlockOverlay.opened (overlay : VirtualBlockOverlay) (pos : Position)
    (blockType : String) (headroomBlock : Option String) (interactionTarget : Option Position) :
    VirtualBlockOverlay :=
  let overlay := overlay.setCell pos { blockType := blockType, headroomBlock := headroomBlock }
  if isDoorType blockType then
    let lower := interactionTarget.getD pos
    (overlay.setCell lower { blockType := blockType, headroomBlock := some blockType }).setCell
      lower.up { blockType := blockType }
  else overlay

structure PathStep (κ : Type) where
  pos : Position
  move : MoveKind
  cost : κ
  reason : String
  blockType : String
  safeToCancel : Bool
  cancelPolicy : String
  virtualEffect : Option String
  placeFace : Option String
  fallDepth : Int
  interactionTarget : Option Position
  openExpectedProperties : Option (Dict String String)
  openHeadroomBlock : Option String

/-- `after_step`. -/
def VirtualBlockOverlay.afterStep {κ : Type} (overlay : VirtualBlockOverlay) (step : PathStep κ) :
    VirtualBlockOverlay :=
  match step.move with
  | .break => overlay.setCell step.pos airCell
  | .place => overlay.setCell step.pos { blockType := step.blockType, walkable := false }
  | .open => overlay.opened step.pos step.blockType step.openHeadroomBlock step.interactionTarget
  | _ => overlay

/-- `_overlay_after_decision`. -/
def overlayAfterDecision {κ : Type} (overlay : VirtualBlockOverlay) (decision : CostDecision κ)
    (cell : GridCell) : VirtualBlockOverlay :=
  match decision.kind with
  | .break => overlay.setCell decision.pos airCell
  | .place =>
      let blockType := match decision.diagnostics with
        | .place _ _ blockType _ => if blockType = "" then cell.blockType else blockType
        | _ => cell.blockType
      overlay.setCell decision.pos
        { blockType := if blockType = "" then "cobblestone" else blockType, walkable := false }
  | .open => overlay.opened decision.pos cell.blockType (openHeadroomBlockType cell.blockType)
      decision.interactionTarget
  | _ => overlay

end MineBot
