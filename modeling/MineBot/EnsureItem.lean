import MineBot.Acquisition

/-!
# Ensuring an item

`ensure_item` reads the inventory, plans, executes the steps of the plan
and reads again. A step that asks for it starts the loop over with a new
plan. The environment answers every read of the inventory, every executed
step and every reading of the clock; inventories are read whole and under
plain item names (`Inventory`).
-/

namespace MineBot

namespace Acquisition

section

variable (lower : String → String)

/-- A complete inventory, by item names in normal form. -/
structure Inventory where
  counts : Counts
  plain : ∀ entry ∈ counts, normalizeItem lower entry.1 = entry.1 ∧ entry.1 ≠ ""
  nodup : (counts.map Prod.fst).Nodup

end

/-- The payload of an executed step, as far as it is read. -/
structure StepResult where
  success : Bool
  reason : Option String
  canRetry : Bool

structure CompletedStep where
  index : Nat
  step : AcquisitionStep
  result : StepResult

/-- The `failed_step` of a result. -/
inductive FailedStep where
  | replanBudget (index : Nat)
  | planning (index : Nat) (error : AcquisitionError)
  | budget (index : Nat) (step : AcquisitionStep)
  | readBefore (index : Nat) (step : AcquisitionStep)
  | failed (completed : CompletedStep)
  | incomplete (completed : CompletedStep) (before current required remaining : Nat)

structure ToolResult where
  success : Bool
  reason : String
  canRetry : Bool
  plan : List AcquisitionStep
  completedSteps : List CompletedStep
  failedStep : Option FailedStep
  currentCount : Option Nat
  remainingCount : Option Nat
  resumeHint : String

/-- `_ensure_result`. -/
def ensureResult (success : Bool) (reason : String) (canRetry : Bool) (targetCount : Nat)
    (plan : List AcquisitionStep) (completedSteps : List CompletedStep)
    (failedStep : Option FailedStep) (currentCount : Option Nat) (resumeHint : String) :
    ToolResult :=
  { success, reason, canRetry, plan, completedSteps, failedStep, currentCount
    remainingCount := currentCount.map (targetCount - ·)
    resumeHint }

/-- A result without the metrics of a plan. -/
def plainResult (reason : String) (canRetry : Bool) : ToolResult :=
  ⟨false, reason, canRetry, [], [], none, none, none, ""⟩

section

variable (lower : String → String)

/-- What the n-th read of the inventory, the n-th executed step and the n-th
reading of the clock give. -/
structure Environment where
  inventory : Nat → Except String (Inventory lower)
  performed : Nat → StepResult
  monotonic : Nat → Rat

/-- What `ensure_item` keeps between two steps, and how much of the
environment it has used. -/
structure Progress where
  reads : Nat
  performed : Nat
  clocks : Nat
  lastRead : Option (Inventory lower)
  plan : List AcquisitionStep
  completedSteps : List CompletedStep

structure EnsureArgs where
  item : String
  count : Nat
  equipTarget : Bool
  reportMissingMaterials : Bool
  maxWallS : Rat

end

section

variable {lower : String → String} (env : Environment lower) (recipeLookup : RecipeLookup)
variable (args : EnsureArgs)

/-- A read of the inventory. -/
def readInventory (st : Progress lower) : Except String (Inventory lower) × Progress lower :=
  match env.inventory st.reads with
  | .error reason => (.error reason, { st with reads := st.reads + 1 })
  | .ok inventory => (.ok inventory, { st with reads := st.reads + 1, lastRead := some inventory })

/-- `_read_count`, of a successful read. -/
def countOf (inventory : Inventory lower) (items : List String) : Nat :=
  (items.map (held inventory.counts)).sum

/-- `time.monotonic() - started > context.budget.max_wall_s`. -/
def overBudget (st : Progress lower) : Bool × Progress lower :=
  (args.maxWallS < env.monotonic st.clocks - env.monotonic 0, { st with clocks := st.clocks + 1 })

/-- The items that `_acquisition_step_inventory_count` counts. -/
def stepItems (lower : String → String) (step : AcquisitionStep) : List String :=
  match step.detail with
  | .collect _ _ expectedDrops .. =>
      match (expectedDrops.filter (· ≠ "")).map (normalizeItem lower) with
      | [] => [step.item]
      | items => items
  | _ => [step.item]

def AcquisitionStep.isEquip (step : AcquisitionStep) : Bool :=
  match step.detail with
  | .equip .. | .equipTarget .. => true
  | _ => false

/-- `_acquisition_step_inventory_count`. -/
def stepInventoryCount (step : AcquisitionStep) (st : Progress lower) :
    Option Nat × Progress lower :=
  if step.isEquip then (some step.count, st)
  else
    match readInventory env st with
    | (.error _, st) => (none, st)
    | (.ok inventory, st) => (some (countOf inventory (stepItems lower step)), st)

/-- How a step or a whole plan ends: `ensure_item` returns, or goes on, with
a new plan or not. -/
inductive Ended (lower : String → String) where
  | returned (result : ToolResult)
  | goesOn (replan : Bool)

/-- One step of the plan. -/
def executeStep (index : Nat) (step : AcquisitionStep) (st : Progress lower) :
    Ended lower × Progress lower :=
  match overBudget env args st with
  | (true, st) =>
      (.returned (ensureResult false "partial_budget_exhausted" true args.count st.plan
        st.completedSteps (some (.budget index step)) none "reinvoke_ensure"), st)
  | (false, st) =>
      match stepInventoryCount env step st with
      | (none, st) =>
          (.returned (ensureResult false "ensure_step_failed:inventory_read_failed" true args.count
            st.plan st.completedSteps (some (.readBefore index step)) none "reinvoke_ensure"), st)
      | (some before, st) =>
          let result := env.performed st.performed
          let record : CompletedStep := ⟨index, step, result⟩
          let st := { st with performed := st.performed + 1 }
          if !result.success then
            (.returned (ensureResult false ("ensure_step_failed:" ++ result.reason.getD "unknown")
              result.canRetry args.count st.plan st.completedSteps (some (.failed record)) none
              "reinvoke_ensure"), st)
          else
            match stepInventoryCount env step st with
            | (none, st) =>
                (.returned (ensureResult false "ensure_step_failed:inventory_read_failed" true
                  args.count st.plan st.completedSteps (some (.failed record)) none
                  "reinvoke_ensure"), st)
            | (some current, st) =>
                let required := if step.isEquip then before else before + step.count
                if current < required then
                  (.returned (ensureResult false "ensure_step_incomplete" true args.count st.plan
                    st.completedSteps
                    (some (.incomplete record before current required (required - current))) none
                    "reinvoke_ensure"), st)
                else
                  (.goesOn step.replanAfter,
                    { st with completedSteps := st.completedSteps ++ [record] })

/-- The loop over the plan. -/
def executeSteps : Nat → List AcquisitionStep → Progress lower → Ended lower × Progress lower
  | _, [], st => (.goesOn false, st)
  | index, step :: steps, st =>
      match executeStep env args index step st with
      | (.returned result, st) => (.returned result, st)
      | (.goesOn true, st) => (.goesOn true, st)
      | (.goesOn false, st) => executeSteps (index + 1) steps st

/-- What a failed plan returns. -/
def planningResult (error : AcquisitionError) (st : Progress lower) : ToolResult :=
  let reason := if args.reportMissingMaterials ∧ error.reason = "unplannable" then
    "missing_materials" else error.reason
  { plainResult reason false with
    plan := st.plan
    completedSteps := st.completedSteps
    failedStep := some (.planning st.plan.length error)
    resumeHint := "reinvoke_ensure" }

/-- The plan of a pass, with the step that equips the target. -/
def withEquip (plan : List AcquisitionStep) : List AcquisitionStep :=
  if args.equipTarget ∧ !plan.any AcquisitionStep.replanAfter then
    plan ++ [⟨args.item, 1, .equipTarget "mainhand" "ensure_tool_for"⟩]
  else plan

/-- `ensure_item` once every step is done. -/
def finish (st : Progress lower) : ToolResult × Progress lower :=
  match readInventory env st with
  | (.error reason, st) => (plainResult ("inventory_read_failed:" ++ reason) true, st)
  | (.ok inventory, st) =>
      let current := countOf inventory [args.item]
      let enough : Bool := args.count ≤ current
      (ensureResult enough (if enough then "ensured" else "ensure_no_inventory_delta") (!enough)
        args.count st.plan st.completedSteps none (some current)
        (if enough then "complete" else "reinvoke_ensure"), st)

/-- The loop of `ensure_item`, `fuel` passes of it. -/
def ensureLoop : Nat → Progress lower → Option (ToolResult × Progress lower)
  | 0, _ => none
  | fuel + 1, st =>
      match (if st.plan = [] then (false, st) else overBudget env args st) with
      | (true, st) =>
          some (ensureResult false "partial_budget_exhausted" true args.count st.plan
            st.completedSteps (some (.replanBudget st.plan.length)) none "reinvoke_ensure", st)
      | (false, st) =>
          match readInventory env st with
          | (.error reason, st) => some (plainResult ("inventory_read_failed:" ++ reason) true, st)
          | (.ok inventory, st) =>
              match resolveAcquisition lower recipeLookup 18 args.item args.count
                (normalizeCounts lower inventory.counts) with
              | .error error => some (planningResult args error st, st)
              | .ok plan =>
                  match withEquip args plan with
                  | [] =>
                      some (ensureResult true
                        (if st.completedSteps = [] then "already_satisfied" else "ensured") false
                        args.count st.plan st.completedSteps none
                        (some (countOf inventory [args.item])) "complete", st)
                  | plan =>
                      match executeSteps env args st.plan.length plan
                        { st with plan := st.plan ++ plan } with
                      | (.returned result, st) => some (result, st)
                      | (.goesOn true, st) => ensureLoop fuel st
                      | (.goesOn false, st) => some (finish env args st)

/-- `int(params.get("count") or 1)`. -/
def requestedCount : Option Int → Int
  | none | some 0 => 1
  | some count => count

/-- `ensure_item`, `fuel` plans of it. -/
def ensureItem (fuel : Nat) (item : String) (count : Option Int)
    (equipTarget reportMissingMaterials : Bool) (maxWallS : Rat) :
    Option (ToolResult × Option (Inventory lower)) :=
  let item := normalizeItem lower item
  let count := requestedCount count
  if item = "" then some (plainResult "invalid_item" false, none)
  else if count ≤ 0 then some (plainResult "invalid_count" false, none)
  else
    (ensureLoop env recipeLookup ⟨item, count.toNat, equipTarget, reportMissingMaterials, maxWallS⟩
      fuel ⟨0, 0, 1, none, [], []⟩).map fun (result, st) => (result, st.lastRead)

end

end Acquisition

end MineBot
