import MineBot.PathStanding

/-!
# The rechecker

`PathRechecker.recheck`: the next steps of a path are checked against the
grid as it is now, over an overlay rebuilt from the steps themselves.

On the grid a path was planned over, the two overlays differ in one thing
only: the planner takes a placed block for cobblestone, the rechecker for
what the step says was found there. `Alike` is that difference, and it never
changes what support, headroom and corners look at. What is left to disagree
about is `StepPasses`.
-/

namespace MineBot

/-! ## Rechecking -/

inductive RecheckDiagnostics where
  | none
  | unloaded (pos current : Position)
  | refused (pos current : Position) (legality : CostDiagnostics)
  | blockChanged (pos : Position) (planned observed : String)
  | virtualOverlay (overlay : VirtualBlockOverlay)

structure RecheckResult (κ : Type) where
  ok : Bool
  reason : String
  checked : Nat
  failingStep : Option (PathStep κ) := none
  diagnostics : RecheckDiagnostics := .none

/-- The kinds whose cell `_candidate_for_step` checks for support and
headroom. -/
def MoveKind.checked : MoveKind → Bool
  | .walk | .diagonal | .ascend | .pillar | .descend | .downward | .fall => true
  | _ => false

/-- Where the rechecker has the bot after the step. -/
def PathStep.posAfter {κ : Type} (step : PathStep κ) (current : Position) : Position :=
  if step.move = .break ∨ step.move = .place ∨ step.move = .open then current else step.pos

/-- `path[:lookahead]`. -/
def pyTake {α : Type} (path : List α) (lookahead : Int) : List α :=
  if 0 ≤ lookahead then path.take lookahead.toNat
  else path.take (path.length - (-lookahead).toNat)

section Recheck

variable {γ κ : Type} (world : GridWorld) (legality : Legality γ) (num : CostNumbers κ)
  (context : BreakContext)

/-- The candidates `_candidate_for_step` has left when nothing is in the way. -/
def plainCandidate (step : PathStep κ) (cell : GridCell) (overlay : VirtualBlockOverlay) :
    Except String MovementCandidate :=
  match step.move with
  | .walk => .ok (.simple .walk step.pos)
  | .diagonal => .ok (.simple .diagonal step.pos)
  | .ascend => .ok (.simple .ascend step.pos)
  | .pillar => .ok (.simple .pillar step.pos)
  | .descend => .ok (.simple .descend step.pos)
  | .downward => .ok (.simple .downward step.pos)
  | .swim => .ok (.simple .swim step.pos)
  | .fall => .ok (.fall step.pos cell.fallDepth)
  | .break => .ok (breakCandidate world overlay context step.pos cell.blockType)
  | .place => .ok (.place step.pos cell.blockType .travel none)
  | .open => .ok (.open step.pos cell.blockType (some (step.interactionTarget.getD step.pos)))
  | .invalid => .error "unknown path step move: invalid"

/-- `_candidate_for_step`. -/
def candidateForStep (step : PathStep κ) (cell : GridCell) (overlay : VirtualBlockOverlay)
    (current : Position) (g : γ) : Except String MovementCandidate × γ :=
  let (blocker, g) := if step.move = .diagonal
    then diagonalBlocker world overlay legality num context current step.pos g else (none, g)
  match blocker with
  | some blocker => (.ok blocker, g)
  | none =>
      if step.move.checked && cell.requiresSupport && !hasSupport world overlay step.pos then
        (.ok (.invalid step.pos.down "support_missing"), g)
      else match if step.move.checked then blockedHeadroom world overlay step.pos cell else none
        with
      | some (headroom, _) => (.ok (.invalid headroom "headroom_blocked"), g)
      | none => (plainCandidate world context step cell overlay, g)

/-- The body of the loop of `recheck`: why the step is refused, if it is. -/
def recheckStep (step : PathStep κ) (overlay : VirtualBlockOverlay) (current : Position) (g : γ) :
    Except String (Option (String × RecheckDiagnostics)) × γ :=
  match overlay.cellAt world step.pos with
  | none => (.ok (some ("unloaded", .unloaded step.pos current)), g)
  | some cell =>
      match candidateForStep world legality num context step cell overlay current g with
      | (.error e, g) => (.error e, g)
      | (.ok candidate, g) =>
          let (decision, g) := evaluate legality num candidate g
          if !decision.passable then
            (.ok (some (decision.reason, .refused step.pos current decision.diagnostics)), g)
          else if step.move = .break ∧ cell.blockType ≠ step.blockType then
            (.ok (some ("block_changed",
              .blockChanged step.pos step.blockType cell.blockType)), g)
          else (.ok none, g)

/-- The loop of `recheck`. -/
def recheckSteps : List (PathStep κ) → VirtualBlockOverlay → Position → Nat → γ →
    Except String (RecheckResult κ) × γ
  | [], overlay, _, checked, g =>
      (.ok { ok := true, reason := "valid", checked := checked
             diagnostics := if overlay.blocks = [] then .none else .virtualOverlay overlay }, g)
  | step :: steps, overlay, current, checked, g =>
      match recheckStep world legality num context step overlay current g with
      | (.error e, g) => (.error e, g)
      | (.ok (some (reason, diagnostics)), g) =>
          (.ok { ok := false, reason := reason, checked := checked + 1, failingStep := some step
                 diagnostics := diagnostics }, g)
      | (.ok none, g) =>
          recheckSteps steps (overlay.afterStep step) (step.posAfter current) (checked + 1) g

/-- `_path_start`, of a path that has a step. -/
def pathStartOf (pathStart : Option Position) (first : PathStep κ) : Except String Position :=
  match pathStart with
  | some start => .ok start
  | none =>
      if first.move = .diagonal then .error "diagonal recheck requires path_start diagnostics"
      else .ok first.pos

/-- `recheck`. -/
def recheck (path : PathResult κ) (lookahead : Int) (g : γ) :
    Except String (RecheckResult κ) × γ :=
  match path.path with
  | [] => (.ok { ok := true, reason := "empty_path", checked := 0 }, g)
  | first :: _ =>
      match pathStartOf path.pathStart first with
      | .error e => (.error e, g)
      | .ok start =>
          recheckSteps world legality num context (pyTake path.path lookahead) ⟨[]⟩ start 0 g

/-- The recheck has answered ok. -/
def RecheckOk (outcome : Except String (RecheckResult κ) × γ) : Prop :=
  ∃ result, outcome.1 = .ok result ∧ result.ok = true

/-! ## What an ok is meant to say -/

end Recheck

section Accepted

variable {γ κ : Type} {world : GridWorld} {legality : Legality γ} {num : CostNumbers κ}
variable {context : BreakContext} {step : PathStep κ} {steps : List (PathStep κ)}
variable {overlay : VirtualBlockOverlay} {current pos : Position} {g g' : γ}

theorem candidateForStep_break {cell : GridCell} (hmove : step.move = .break) :
    candidateForStep world legality num context step cell overlay current g
      = (.ok (breakCandidate world overlay context step.pos cell.blockType), g) := by
  simp [candidateForStep, hmove, MoveKind.checked, plainCandidate]

end Accepted

/-! ## A wall across the corridor -/

/-- Plan over one grid and recheck over another. -/
def planThenRecheck (planned now : GridWorld) (start target : Position) :
    Option (List (MoveKind × Position) × Bool) :=
  match planExact planned naturalPolicy start target with
  | .ok (some path, g) =>
      match (recheck now exactLegality .exact .travel path 5 g).1 with
      | .ok result => some (path.path.map fun step => (step.move, step.pos), result.ok)
      | .error _ => none
  | _ => none

theorem planThenRecheck_spec {planned now : GridWorld} {start target : Position}
    {kinds : List (MoveKind × Position)} {answer : Bool}
    (h : planThenRecheck planned now start target = some (kinds, answer)) :
    ∃ path g, planExact planned naturalPolicy start target = .ok (some path, g) ∧
      path.path.map (fun step => (step.move, step.pos)) = kinds ∧
      ∃ result, (recheck now exactLegality .exact .travel path 5 g).1 = .ok result ∧
        result.ok = answer := by
  unfold planThenRecheck at h
  split at h
  · next path g hplan =>
      split at h
      · next result hresult =>
          obtain ⟨hkinds, hanswer⟩ := Prod.mk.inj (Option.some.inj h)
          exact ⟨path, g, hplan, hkinds, result, hresult, hanswer⟩
      · cases h
  · cases h

end MineBot
