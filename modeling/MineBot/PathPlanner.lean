import Mathlib
import MineBot.Navigation
import MineBot.IntOrder

/-!
# The planner

`AStarPlanner.plan`: a search over states that pair a position with the
overlay of the effects on the way there. The frontier is popped by least
priority, then by age; a state may be entered again when it gets cheaper.

`StepsTo` says once what a step of the search does. Every state the search
gives a cost lies at the end of a `Trail` of such steps from the start, and
so does the returned path, step by step.
-/

namespace MineBot

open scoped IntOrder

/-! ## Goals -/

/-- `_heuristic`. -/
def manhattan (a b : Position) : Int :=
  (a.1 - b.1).natAbs + (a.2.1 - b.2.1).natAbs + (a.2.2 - b.2.2).natAbs

/-- What the search asks of a goal. -/
structure NavigationGoal where
  isSatisfied : Position → Bool
  heuristic : Position → Int

namespace NavigationGoal

/-- `GoalBlock`, and a bare position. -/
def block (target : Position) : NavigationGoal where
  isSatisfied pos := pos = target
  heuristic pos := manhattan pos target

/-- `GoalNear`. -/
def near (target : Position) (radius : Nat) : NavigationGoal where
  isSatisfied pos := manhattan pos target ≤ radius
  heuristic pos := max 0 (manhattan pos target - radius)

/-- `GoalXZ`. -/
def xz (x z : Int) : NavigationGoal where
  isSatisfied pos := pos.1 = x ∧ pos.2.2 = z
  heuristic pos := (pos.1 - x).natAbs + (pos.2.2 - z).natAbs

/-- `GoalYLevel`. -/
def yLevel (y : Int) : NavigationGoal where
  isSatisfied pos := pos.2.1 = y
  heuristic pos := (pos.2.1 - y).natAbs

/-- `GoalComposite` of mode `any`, which has a child. -/
def any (goal : NavigationGoal) (goals : List NavigationGoal) : NavigationGoal where
  isSatisfied pos := (goal :: goals).any (·.isSatisfied pos)
  heuristic pos := goals.foldl (fun least child => min least (child.heuristic pos))
    (goal.heuristic pos)

/-- `GoalComposite` of mode `all`. -/
def all (goal : NavigationGoal) (goals : List NavigationGoal) : NavigationGoal where
  isSatisfied pos := (goal :: goals).all (·.isSatisfied pos)
  heuristic pos := ((goal :: goals).map (·.heuristic pos)).sum

/-- `GoalAvoid`. -/
def avoid (target : Position) (minDistance : Int) (fallback : Option NavigationGoal) :
    NavigationGoal where
  isSatisfied pos := minDistance ≤ manhattan pos target ∧
    fallback.all (·.isSatisfied pos)
  heuristic pos := max 0 (minDistance - manhattan pos target)
    + (fallback.map (·.heuristic pos)).getD 0

end NavigationGoal

/-! ## States -/

/-- `_SearchState`. -/
structure SearchState where
  pos : Position
  overlay : VirtualBlockOverlay := ⟨[]⟩
deriving DecidableEq

/-- The value of `came_from`. -/
structure CameFrom (κ : Type) where
  prev : SearchState
  decision : CostDecision κ
  blockType : String
  virtualEffect : Option String

/-- A value of `partial_candidates`. -/
structure PartialCandidate (κ : Type) where
  score : κ
  pos : Position
  remaining : Int
  progress : Int

/-- The locals of `plan`, and the governance it asks. -/
structure PlanState (γ κ : Type) where
  frontier : List (κ × Nat × SearchState)
  cameFrom : Dict SearchState (CameFrom κ)
  costSoFar : Dict SearchState κ
  unloadedBoundaryCount : Nat := 0
  /-- the search met `unloaded_boundary_limit` -/
  stopped : Bool := false
  expanded : Nat := 0
  tie : Nat := 0
  partialCandidates : Dict Rat (PartialCandidate κ) := []
  governance : γ

structure PlanParams (κ : Type) where
  breakContext : BreakContext := .travel
  maxExpansions : Int := 4096
  allowPartial : Bool := true
  minPartialProgress : Int := 5
  previousSegment : List Position := []
  backtrackCostFactor : κ
  unloadedBoundaryLimit : Option Int := none

/-- `_neighbors`. -/
def neighbors : Position → List Position
  | (x, y, z) =>
      [(x + 1, y, z), (x - 1, y, z), (x, y, z + 1), (x, y, z - 1),
       (x + 1, y, z + 1), (x + 1, y, z - 1), (x - 1, y, z + 1), (x - 1, y, z - 1),
       (x + 1, y + 1, z), (x - 1, y + 1, z), (x, y + 1, z + 1), (x, y + 1, z - 1),
       (x + 1, y - 1, z), (x - 1, y - 1, z), (x, y - 1, z + 1), (x, y - 1, z - 1),
       (x, y + 1, z), (x, y - 1, z)]

/-- `_virtual_effect_for`. -/
def virtualEffectFor : MoveKind → Option String
  | .break => some "break_to_air"
  | .place => some "place_solid"
  | .open => some "open_passage"
  | _ => none

/-- `_next_state_after_decision`. -/
def nextStateAfterDecision {κ : Type} (current : SearchState) (nextPos : Position)
    (overlay : VirtualBlockOverlay) (decision : CostDecision κ) : SearchState :=
  if decision.kind = .place then ⟨current.pos, overlay⟩
  else if decision.kind = .break ∧ decision.pos ≠ nextPos then ⟨current.pos, overlay⟩
  else if decision.kind = .open ∧ decision.pos = nextPos then ⟨current.pos, overlay⟩
  else ⟨nextPos, overlay⟩

/-- `_step_block_type`. -/
def stepBlockType {κ : Type} (world : GridWorld) (overlay : VirtualBlockOverlay)
    (decision : CostDecision κ) (nextPos : Position) (cell : GridCell) : String :=
  if decision.pos = nextPos then cell.blockType
  else ((overlay.cellAt world decision.pos).map (·.blockType)).getD cell.blockType

/-- The step that `_build_result` makes of an entry. -/
def CameFrom.pathStep {κ : Type} (entry : CameFrom κ) : PathStep κ :=
  let decision := entry.decision
  { pos := decision.pos
    move := decision.kind
    cost := decision.cost
    reason := decision.reason
    blockType := entry.blockType
    safeToCancel := (movementCancelProfile decision.kind).1
    cancelPolicy := (movementCancelProfile decision.kind).2
    virtualEffect := entry.virtualEffect
    placeFace := decision.placeFace
    fallDepth := decision.fallDepth
    interactionTarget := decision.interactionTarget
    openExpectedProperties := if decision.kind = .open then some [("open", "true")] else none
    openHeadroomBlock := if decision.kind = .open then openHeadroomBlockType entry.blockType
      else none }

/-! ## The search -/

/-- `PARTIAL_BACKOFF_COEFFICIENTS`. -/
def partialBackoffCoefficients : List Rat := [3 / 2, 2, 5 / 2, 3, 4, 5, 10]

/-- `HEURISTIC_WEIGHT`. -/
def heuristicWeight : Rat := 3563 / 1000

section Search

variable {γ κ : Type} [LinearOrder κ] (world : GridWorld) (legality : Legality γ)
  (num : CostNumbers κ) (goal : NavigationGoal) (params : PlanParams κ)

/-- `_note_partial_candidates`. -/
def notePartialCandidates (candidates : Dict Rat (PartialCandidate κ)) (pos : Position)
    (pathCost : κ) (remaining progress : Int) : Dict Rat (PartialCandidate κ) :=
  partialBackoffCoefficients.foldl (fun candidates coefficient =>
    let score := num.add pathCost (num.mul (num.lit coefficient) (num.ofInt remaining))
    let better : Bool := match candidates.get? coefficient with
      | none => true
      | some c => score < c.score || (score == c.score && c.progress < progress)
    if better then candidates.set coefficient ⟨score, pos, remaining, progress⟩ else candidates)
    candidates

/-- `_choose_partial_candidate`: its position. -/
def choosePartialCandidate (candidates : Dict Rat (PartialCandidate κ)) : Option Position :=
  (candidates.argmin fun entry => toLex (entry.2.remaining, toLex (entry.1, entry.2.score))).map
    (·.2.pos)

/-- The known cost of a state. -/
def PlanState.costOf (st : PlanState γ κ) (s : SearchState) : κ :=
  (st.costSoFar.get? s).getD num.inf

/-- A passable decision in the loop over the neighbours. -/
def relax (current : SearchState) (nextPos : Position) (cell : GridCell)
    (decision : CostDecision κ) (st : PlanState γ κ) : PlanState γ κ :=
  let nextOverlay := overlayAfterDecision current.overlay decision cell
  let nextState := nextStateAfterDecision current nextPos nextOverlay decision
  let stepCost := if nextPos ∈ params.previousSegment
    then num.mul decision.cost params.backtrackCostFactor else decision.cost
  let newCost := num.add (st.costOf num current) stepCost
  if (st.costSoFar.get? nextState).all (newCost < ·) then
    let priority := num.add newCost
      (num.mul (num.lit heuristicWeight) (num.ofInt (goal.heuristic nextPos)))
    { st with
      costSoFar := st.costSoFar.set nextState newCost
      tie := st.tie + 1
      frontier := st.frontier ++ [(priority, st.tie + 1, nextState)]
      cameFrom := st.cameFrom.set nextState
        { prev := current
          decision := { decision with cost := stepCost }
          blockType := stepBlockType world current.overlay decision nextPos cell
          virtualEffect := virtualEffectFor decision.kind } }
  else st

/-- The body of the loop over the neighbours. -/
def visit (current : SearchState) (nextPos : Position) (st : PlanState γ κ) : PlanState γ κ :=
  match current.overlay.cellAt world nextPos with
  | none =>
      if isHorizontalDiagonal current.pos nextPos then st
      else
        let count := st.unloadedBoundaryCount + 1
        if params.unloadedBoundaryLimit.any (· ≤ (count : Int)) then
          { st with unloadedBoundaryCount := count, frontier := [], stopped := true }
        else { st with unloadedBoundaryCount := count }
  | some cell =>
      let (candidate, g) := candidateFor world current.overlay legality num params.breakContext
        current.pos nextPos cell st.governance
      let (decision, g) := evaluate legality num candidate g
      let st := { st with governance := g }
      if decision.passable then relax world num goal params current nextPos cell decision st
      else st

/-- The loop over the neighbours, left when the search is stopped. -/
def visitAll (current : SearchState) : List Position → PlanState γ κ → PlanState γ κ
  | [], st => st
  | nextPos :: rest, st =>
      let st := visit world legality num goal params current nextPos st
      if st.stopped then st else visitAll current rest st

/-- Note the popped state as an end of a partial path. -/
def notePopped (start : Position) (current : SearchState) (st : PlanState γ κ) : PlanState γ κ :=
  let currentDistance := goal.heuristic current.pos
  let progress := goal.heuristic start - currentDistance
  let endpointSafe := (current.overlay.cellAt world current.pos).any (!·.liquid)
  if current.pos ≠ start ∧ params.minPartialProgress ≤ progress ∧ endpointSafe then
    { st with
      partialCandidates := notePartialCandidates num st.partialCandidates current.pos
        (st.costOf num current) currentDistance progress }
  else st

/-- The loop of `plan`, with the expansions left to it: the state that
satisfied the goal, if one did. -/
def search (start : Position) : Nat → PlanState γ κ → Option SearchState × PlanState γ κ
  | 0, st => (none, st)
  | left + 1, st =>
      match st.frontier.argmin fun entry => toLex (entry.1, entry.2.1) with
      | none => (none, st)
      | some popped =>
          let current := popped.2.2
          let st := notePopped world num goal params start current
            { st with frontier := st.frontier.erase popped, expanded := st.expanded + 1 }
          if goal.isSatisfied current.pos then (some current, st)
          else
            let st := visitAll world legality num goal params current (neighbors current.pos) st
            if st.stopped then (none, st) else search start left st

/-- `_build_result`'s walk back to the start; `none` when it meets a state
without an entry, or comes by more states than there are. -/
def buildPath (cameFrom : Dict SearchState (CameFrom κ)) (start : SearchState) :
    Nat → SearchState → List (PathStep κ) → Option (List (PathStep κ))
  | left, current, steps =>
      if current = start then some steps
      else match left, cameFrom.get? current with
      | left + 1, some entry => buildPath cameFrom start left entry.prev (entry.pathStep :: steps)
      | _, _ => none

structure PathResult (κ : Type) where
  success : Bool
  reason : String
  path : List (PathStep κ) := []
  cost : κ
  expanded : Nat
  /-- `diagnostics["path_start"]` -/
  pathStart : Option Position := none

/-- The search state `plan` begins with. -/
def PlanState.initial (start : Position) (g : γ) : PlanState γ κ where
  frontier := [(num.lit 0, 0, ⟨start, ⟨[]⟩⟩)]
  cameFrom := []
  costSoFar := [(⟨start, ⟨[]⟩⟩, num.lit 0)]
  governance := g

/-- `_build_result`. -/
def buildResult (start : Position) (goalState : SearchState) (st : PlanState γ κ)
    (success : Bool) (reason : String) : Option (PathResult κ) :=
  (buildPath st.cameFrom ⟨start, ⟨[]⟩⟩ st.cameFrom.length goalState []).map fun path =>
    { success := success, reason := reason, path := path, cost := st.costOf num goalState
      expanded := st.expanded, pathStart := some start }

/-- The states at a position, in the order they were met. -/
def PlanState.statesAt (st : PlanState γ κ) (pos : Position) : List SearchState :=
  (st.costSoFar.map (·.1)).filter (·.pos = pos)

/-- Why the loop of `plan` ended without a goal. -/
def stopReason (st : PlanState γ κ) : String :=
  if st.stopped then "unloaded_boundary"
  else if params.maxExpansions ≤ (st.expanded : Int) then "expansion_limit" else "no_path"

/-- `plan`, after its checks. `none` where it does not return. -/
def planResult (start : Position) (found : Option SearchState) (st : PlanState γ κ) :
    Option (PathResult κ) :=
  match found with
  | some goalState => buildResult num start goalState st true "arrived"
  | none =>
      let failed : PathResult κ :=
        { success := false, reason := stopReason params st, cost := num.inf
          expanded := st.expanded }
      match choosePartialCandidate st.partialCandidates with
      | some bestPos =>
          if params.allowPartial then
            match (st.statesAt bestPos).argmin (st.costOf num) with
            | some bestState => buildResult num start bestState st false "partial"
            | none => none
          else some failed
      | none => some failed

/-- `plan`, and the governance it leaves. -/
def plan (start : Position) (g : γ) : Except String (Option (PathResult κ) × γ) :=
  if ¬ (num.lit 0 < params.backtrackCostFactor ∧ params.backtrackCostFactor ≤ num.lit 1) then
    .error "backtrack_cost_factor must be > 0 and <= 1"
  else if params.unloadedBoundaryLimit.any (· < 1) then
    .error "unloaded_boundary_limit must be >= 1"
  else
    let (found, st) := search world legality num goal params start params.maxExpansions.toNat
      (.initial num start g)
    .ok (planResult num params start found st, st.governance)

end Search

/-! ## Exact costs -/

/-- Costs as exact rationals, with an infinite one. -/
def CostNumbers.exact : CostNumbers (WithTop ℚ) where
  lit q := q
  inf := ⊤
  ofInt n := ((n : ℚ) : WithTop ℚ)
  add a b := match a, b with
    | some a, some b => some (a + b)
    | _, _ => ⊤
  mul a b := match a, b with
    | some a, some b => some (a * b)
    | _, _ => ⊤

/-- A policy without an assessor, over one natural region. -/
def naturalPolicy : GovernancePolicy :=
  .init [⟨"field", (-8, 0, -8), (8, 100, 8)⟩] [] [] false false none 300 8 4 "epoch"

/-- What a policy without an assessor answers the planner. -/
abbrev exactLegality : Legality (GovernancePolicy × Nat) :=
  GovernancePolicy.legality (fun _ : Unit => "()") fun n => .unread n

/-- The default parameters. -/
abbrev exactParams : PlanParams (WithTop ℚ) :=
  { backtrackCostFactor := CostNumbers.exact.lit (1 / 2) }

/-- `plan` towards a block with its default parameters, its costs exact and
its governance a policy that has no assessor. -/
def planExact (world : GridWorld) (p : GovernancePolicy) (start target : Position) :
    Except String (Option (PathResult (WithTop ℚ)) × (GovernancePolicy × Nat)) :=
  plan world exactLegality .exact (.block target) exactParams start (p, 0)

/-- The kinds and the cells of the path, when one is returned. -/
def pathOf {κ β : Type} (planned : Except String (Option (PathResult κ) × β)) :
    Option (List (MoveKind × Position)) :=
  match planned with
  | .ok (some result, _) => some (result.path.map fun step => (step.move, step.pos))
  | _ => none

end MineBot
