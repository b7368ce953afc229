import Mathlib
import MineBot.Dict
import MineBot.Text
import MineBot.IntOrder

/-!
# Planning an acquisition

`resolve_acquisition` turns a wanted item into a list of steps: collect,
craft, smelt, equip. The planner walks the recipes depth first over a
virtual inventory that each resolved step changes; a plan that has to wait
for evidence (which wood there is) is cut off by a step that asks for a new
plan.

Divisions are exact. What Python makes of a text's case is a parameter
(`lower`).
-/

namespace MineBot

open scoped IntOrder

namespace Acquisition

/-! ## Recipes and steps -/

structure RecipeVariant where
  outputItem : String
  outputCount : Nat
  ingredientGroups : List (List String)
  requiresTable : Bool
  recipeKind : String

/-- What a step does, with its `detail`. -/
inductive StepDetail where
  | collect (inventoryItem : String) (blockTypes expectedDrops : List String)
      (requiredTier : Option String) (replanAfter : Bool) (satisfiesFamily : Option String)
  | craft (recipeKind : String) (requiresTable : Bool) (outputCount : Nat)
      (ingredients : Dict String Nat)
  | smelt (inputItem : String) (inputCount : Nat) (fuelItem : String) (fuelCount : Nat)
      (secondsNeeded : Rat)
  | equip (requiredTier forItem : String)
  | equipTarget (target requestedBy : String)
deriving DecidableEq

structure AcquisitionStep where
  item : String
  count : Nat
  detail : StepDetail
deriving DecidableEq

/-- `step.detail.get("replan_after")`. -/
def AcquisitionStep.replanAfter (step : AcquisitionStep) : Bool :=
  match step.detail with
  | .collect _ _ _ _ replan _ => replan
  | _ => false

inductive ErrorDetail where
  | maxDepth (maxDepth : Nat)
  | cycle (cycle : List String)
  | missingRecipe (item : String)
  | requiredTool (requiredTier toolItem : String) (bestOwned : Option (String × String))
  | fuel (secondsNeeded : Rat) (usableFuels : List (String × Nat × Rat))
  | variantCount (n : Nat)
  | requirements (requirements counts : Dict String Nat)

structure AcquisitionError where
  reason : String
  item : String
  count : Nat
  chain : List String
  detail : ErrorDetail

abbrev Counts := Dict String Nat

/-- `counts.get(item, 0)`. -/
def held (counts : Counts) (item : String) : Nat := (Dict.get? counts item).getD 0

/-- A recipe lookup: the variants of an item, if it is known. -/
abbrev RecipeLookup := String → Option (List RecipeVariant)

/-! ## Tables -/

def logItems : List String :=
  ["oak_log", "spruce_log", "birch_log", "jungle_log", "acacia_log", "dark_oak_log",
   "mangrove_log", "cherry_log", "pale_oak_log", "crimson_stem", "warped_stem"]

def plankItems : List String :=
  ["oak_planks", "spruce_planks", "birch_planks", "jungle_planks", "acacia_planks",
   "dark_oak_planks", "mangrove_planks", "cherry_planks", "pale_oak_planks", "crimson_planks",
   "warped_planks"]

def plankFromLog : Dict String String := plankItems.zip logItems

/-- `FUEL_BURN_SECONDS`, in `FUEL_SELECTION_ORDER`. -/
def fuelBurnSeconds : List (String × Rat) :=
  [("coal", 80), ("charcoal", 80), ("coal_block", 800)] ++ plankItems.map (·, 15)
    ++ [("stick", 5), ("bamboo", 5 / 2), ("dried_kelp_block", 200), ("blaze_rod", 120)]
    ++ logItems.map (·, 15) ++ [("lava_bucket", 1000)]

structure CollectRoute where
  inventoryItem : String
  collectItem : String
  blockTypes : List String
  expectedDrops : List String

/-- The route of an item that drops from a block of its own name. -/
def ownRoute (item : String) : String × CollectRoute := (item, ⟨item, item, [item], [item]⟩)

/-- The route of an item that drops from other blocks. -/
def dropRoute (item : String) (blockTypes : List String) : String × CollectRoute :=
  (item, ⟨item, item, blockTypes, [item]⟩)

/-- `COLLECT_ROUTES`. -/
def collectRoutes : Dict String CollectRoute :=
  [("log", ⟨"oak_log", "logs", logItems, logItems⟩),
   ("logs", ⟨"oak_log", "logs", logItems, logItems⟩)]
    ++ logItems.map ownRoute
    ++ [dropRoute "cobblestone" ["stone", "cobblestone"],
        dropRoute "coal" ["coal_ore", "deepslate_coal_ore"],
        dropRoute "raw_iron" ["iron_ore", "deepslate_iron_ore"],
        dropRoute "raw_gold" ["gold_ore", "deepslate_gold_ore"],
        dropRoute "raw_copper" ["copper_ore", "deepslate_copper_ore"],
        dropRoute "diamond" ["diamond_ore", "deepslate_diamond_ore"],
        dropRoute "wheat_seeds" ["short_grass", "tall_grass"]]

structure SmeltRoute where
  inputItem : String
  outputCount : Nat
  inputCount : Nat

/-- `SMELT_ROUTES`. -/
def smeltRoutes : Dict String SmeltRoute :=
  [("iron_ingot", ⟨"raw_iron", 1, 1⟩), ("gold_ingot", ⟨"raw_gold", 1, 1⟩),
   ("copper_ingot", ⟨"raw_copper", 1, 1⟩), ("charcoal", ⟨"oak_log", 1, 1⟩),
   ("stone", ⟨"cobblestone", 1, 1⟩)]

def smeltSecondsPerItem : Rat := 10

/-! ## Harvest tiers -/

def toolTierOrder : List String := ["wooden", "stone", "iron", "diamond", "netherite"]

/-- `PICKAXE_BY_TIER`, for a tier. -/
def pickaxeByTier (tier : String) : String := tier ++ "_pickaxe"

/-- `MIN_PICKAXE_TIER`. -/
def minPickaxeTier : Dict String String :=
  ["stone", "cobblestone", "deepslate", "cobbled_deepslate", "coal_ore", "deepslate_coal_ore",
      "andesite", "diorite", "granite", "tuff", "blackstone", "netherrack", "sandstone", "furnace",
      "blast_furnace", "smoker"].map (·, "wooden")
    ++ ["iron_ore", "deepslate_iron_ore", "copper_ore", "deepslate_copper_ore", "lapis_ore",
      "deepslate_lapis_ore", "raw_iron_block", "raw_copper_block"].map (·, "stone")
    ++ ["diamond_ore", "deepslate_diamond_ore", "gold_ore", "deepslate_gold_ore",
      "nether_gold_ore", "redstone_ore", "deepslate_redstone_ore", "emerald_ore",
      "deepslate_emerald_ore", "raw_gold_block"].map (·, "iron")
    ++ ["obsidian", "crying_obsidian", "ancient_debris"].map (·, "diamond")

/-- `_PICKAXE_TIER_BY_ITEM`. -/
def pickaxeTierByItem : Dict String String :=
  [("wooden_pickaxe", "wooden"), ("golden_pickaxe", "wooden"), ("stone_pickaxe", "stone"),
   ("iron_pickaxe", "iron"), ("diamond_pickaxe", "diamond"), ("netherite_pickaxe", "netherite")]

section

variable (lower : String → String)

/-- `str.removeprefix("minecraft:")`. -/
def removePrefix (name : String) : String :=
  if "minecraft:".toList.isPrefixOf name.toList then .ofList (name.toList.drop 10) else name

def plainName (item : String) : String := lower (pyStrip (removePrefix item))

def normalizeItem (item : String) : String :=
  .ofList ((plainName lower item).toList.map fun c => if c = ' ' then '_' else c)

/-- `_normalize_tier`, as the rank of the tier. -/
def tierRank? (tier : String) : Option Nat :=
  let lowered := plainName lower tier
  toolTierOrder.findIdx? (· = if lowered = "golden" then "wooden" else lowered)

def tierSatisfies (ownedTier requiredTier : String) : Bool :=
  match tierRank? lower ownedTier, tierRank? lower requiredTier with
  | some owned, some required => required ≤ owned
  | _, _ => false

def requiredPickaxeTier (blockType : String) : Option String :=
  Dict.get? minPickaxeTier (plainName lower blockType)

/-- `best_owned_pickaxe`: the first one of the highest tier. -/
def bestOwnedPickaxe (counts : Counts) : Option (String × String) :=
  let owned := counts.filterMap fun (rawItem, count) =>
    if count = 0 then none
    else
      let item := plainName lower rawItem
      (Dict.get? pickaxeTierByItem item).map (item, ·)
  owned.argmax fun best => toolTierOrder.idxOf best.2

def strongestRequiredTier (blockTypes : List String) : Option String :=
  blockTypes.foldl (fun strongest blockType =>
    match requiredPickaxeTier lower blockType, strongest with
    | none, strongest => strongest
    | some required, none => some required
    | some required, some tier => if tierSatisfies lower tier required then some tier
        else some required) none

/-! ## Counts -/

def normalizeCounts (counts : Counts) : Counts :=
  counts.foldl (fun normalized (rawItem, count) =>
    let item := normalizeItem lower rawItem
    if item ≠ "" ∧ 0 < count then Dict.set normalized item (held normalized item + count)
    else normalized) []

/-- `_dict_of_ints`. -/
def dictOfInts (counts : Dict String Nat) : Dict String Nat := normalizeCounts lower counts

end

def mergeCounts (left right : Dict String Nat) : Dict String Nat :=
  right.foldl (fun merged (item, count) => Dict.set merged item (held merged item + count)) left

/-- `_preferred_plank`: the plank there is most of, logs counted as four. -/
def preferredPlank (counts : Counts) : Option String :=
  let available (plank : String) : Nat :=
    held counts plank + ((Dict.get? plankFromLog plank).map (held counts)).getD 0 * 4
  (plankItems.argmax available).filter fun plank => 0 < available plank

def ownedPlankFamily (counts : Counts) : Bool :=
  plankItems.any fun plank =>
    0 < held counts plank || 0 < ((Dict.get? plankFromLog plank).map (held counts)).getD 0

def ceilDiv (a b : Nat) : Nat := (a + b - 1) / b

/-- `_select_fuel`. -/
def selectFuel (counts : Counts) (secondsNeeded : Rat) : Option (String × Nat) :=
  if secondsNeeded ≤ 0 then none
  else (fuelBurnSeconds.find? fun (fuel, seconds) =>
      ⌈secondsNeeded / seconds⌉₊ ≤ held counts fuel).map fun (fuel, seconds) =>
    (fuel, max 1 ⌈secondsNeeded / seconds⌉₊)

def usableFuels (counts : Counts) : List (String × Nat × Rat) :=
  fuelBurnSeconds.filterMap fun (fuel, seconds) =>
    if 0 < held counts fuel then some (fuel, held counts fuel, seconds) else none

/-! ## The choice of materials -/

/-- `_material_availability`. -/
def materialAvailability (item : String) (counts selected : Counts)
    (preferredPlank : Option String) : Nat :=
  if held selected item < held counts item then 0
  else if preferredPlank = some item then 1
  else if 0 < ((Dict.get? plankFromLog item).map (held counts)).getD 0 then 2
  else 3

/-- `_item_preference`. -/
def itemPreference (item : String) : Int :=
  if item = "cobblestone" then -10
  else if item = "cobbled_deepslate" then -9
  else if item = "blackstone" then -8
  else if (Dict.get? collectRoutes item).isSome then -1
  else if (Dict.get? smeltRoutes item).isSome then 0
  else if item ∈ plankItems then plankItems.idxOf item
  else if item ∈ logItems then logItems.idxOf item
  else plankItems.length + logItems.length

section

variable (lower : String → String)

/-- The option of an ingredient group. -/
def selectOption (counts selected : Counts) (preferredPlank : Option String)
    (group : List String) : Option String :=
  let normalizedGroup := (group.filter (· ≠ "")).map (normalizeItem lower)
  let plankOptions := normalizedGroup.filter (· ∈ plankItems)
  if normalizedGroup = [] then none
  else if 1 < plankOptions.length ∧ preferredPlank = none ∧ !ownedPlankFamily counts then
    some "planks"
  else normalizedGroup.argmin fun candidate =>
    toLex (materialAvailability candidate counts selected preferredPlank,
      toLex (itemPreference candidate, candidate))

/-- `_select_requirements`. -/
def selectRequirements (variant : RecipeVariant) (crafts : Nat) (counts : Counts)
    (preferredPlank : Option String) : Dict String Nat :=
  let selected : Counts := variant.ingredientGroups.foldl (fun selected group =>
    match selectOption lower counts selected preferredPlank group with
    | none => selected
    | some option => Dict.set selected option (held selected option + crafts)) []
  selected.insertionSort fun e e' => e.1 ≤ e'.1

/-- `_choose_variant`. -/
def chooseVariant (item : String) (missing : Nat) (variants : List RecipeVariant)
    (counts : Counts) (preferredPlank : Option String) : Option RecipeVariant :=
  let candidates := variants.filter fun variant =>
    normalizeItem lower variant.outputItem = normalizeItem lower item ∧ 0 < variant.outputCount
  candidates.argmin fun variant =>
    let requirements := selectRequirements lower variant (ceilDiv missing variant.outputCount)
      counts preferredPlank
    let deficit := (requirements.map fun (ingredient, required) =>
      required - held counts ingredient).sum
    toLex (deficit, toLex (variant.requiresTable.toNat, variant.ingredientGroups.length))

end

def missingRequirements (required : Dict String Nat) (counts : Counts) : Dict String Nat :=
  required.filter fun (item, count) => held counts item < count

/-- `_ingredient_priority`. -/
def ingredientPriority (item : String) : Nat :=
  if item = "stick" then 0 else if item ∈ plankItems then 2 else 1

/-! ## The planner -/

structure Planner where
  counts : Counts
  deferred : Bool
  steps : List AcquisitionStep

namespace Planner

def addStep (p : Planner) (item : String) (count : Nat) (detail : StepDetail) : Planner :=
  { p with steps := p.steps ++ [⟨item, count, detail⟩] }

/-- `self.counts[item] = self.counts.get(item, 0) + count`. -/
def gain (p : Planner) (item : String) (count : Nat) : Planner :=
  { p with counts := Dict.set p.counts item (held p.counts item + count) }

/-- `self.counts[item] = max(0, self.counts.get(item, 0) - count)`. -/
def consume (p : Planner) (item : String) (count : Nat) : Planner :=
  { p with counts := Dict.set p.counts item (held p.counts item - count) }

/-- The end of `_resolve_collect`. -/
def collect (p : Planner) (route : CollectRoute) (missing : Nat) (requiredTier : Option String) :
    Planner :=
  if missing = 0 then p
  else (p.addStep route.collectItem missing
    (.collect route.inventoryItem route.blockTypes route.expectedDrops requiredTier false
      none)).gain route.inventoryItem missing

/-- The end of `_resolve_smelt`. -/
def smelt (p : Planner) (item : String) (crafts : Nat) (route : SmeltRoute)
    (fuel : String × Nat) : Planner :=
  (((p.addStep item (crafts * route.outputCount)
    (.smelt route.inputItem (crafts * route.inputCount) fuel.1 fuel.2
      (crafts * smeltSecondsPerItem))).consume route.inputItem (crafts * route.inputCount)).consume
        fuel.1 fuel.2).gain item (crafts * route.outputCount)

/-- The end of `_resolve_craft`. -/
def craft (p : Planner) (item : String) (crafts : Nat) (variant : RecipeVariant)
    (required : Dict String Nat) : Planner :=
  (required.foldl (fun p (ingredient, count) => p.consume ingredient count)
    (p.addStep item (crafts * variant.outputCount)
      (.craft variant.recipeKind variant.requiresTable variant.outputCount required))).gain item
        (crafts * variant.outputCount)

end Planner

abbrev Resolution := Except AcquisitionError Planner

/-- A nested call: an error is returned, and so is a plan that is cut off. -/
def unlessDeferred (out : Resolution) (next : Planner → Resolution) : Resolution :=
  match out with
  | .error e => .error e
  | .ok p => if p.deferred then .ok p else next p

/-- A call of `resolve`. -/
abbrev Resolver := String → Nat → List String → Planner → Resolution

section

variable (lower : String → String) (recipeLookup : RecipeLookup) (maxDepth : Nat)
variable (preferred : Option String)

section

variable (resolve : Resolver)

def resolveCollect (item : String) (count : Nat) (route : CollectRoute) (chain : List String)
    (p : Planner) : Resolution :=
  let missing := count - (route.expectedDrops.map (held p.counts)).sum
  match strongestRequiredTier lower route.blockTypes with
  | none => .ok (p.collect route missing none)
  | some tier =>
      let enough (best : Option (String × String)) : Bool :=
        best.any fun best => tierSatisfies lower best.2 tier
      let toolItem := pickaxeByTier tier
      if enough (bestOwnedPickaxe lower p.counts) then .ok (p.collect route missing tier)
      else unlessDeferred (resolve toolItem 1 (chain ++ [item]) p) fun p' =>
        let best := bestOwnedPickaxe lower p'.counts
        if !enough best then
          .error ⟨"required_tool_unavailable", item, count, chain, .requiredTool tier toolItem best⟩
        else if held p.counts toolItem = 0 ∧ 0 < held p'.counts toolItem then
          .ok ((p'.addStep toolItem 1 (.equip tier item)).collect route missing tier)
        else .ok (p'.collect route missing tier)

def resolvePlankFamily (count : Nat) (chain : List String) (p : Planner) : Resolution :=
  match preferredPlank p.counts with
  | some plank => resolve plank count (chain ++ ["planks"]) p
  | none =>
      .ok { p.addStep "logs" (max 1 (ceilDiv count 4))
        (.collect "logs" logItems logItems none true (some "planks")) with deferred := true }

/-- `_resolve_smelt`, from the choice of the fuel on. -/
def resolveFuel (item : String) (count crafts : Nat) (route : SmeltRoute) (chain : List String)
    (p : Planner) : Resolution :=
  let secondsNeeded := crafts * smeltSecondsPerItem
  match selectFuel p.counts secondsNeeded with
  | some fuel => .ok (p.smelt item crafts route fuel)
  | none =>
      unlessDeferred (resolve "planks" ⌈secondsNeeded / 15⌉₊ (chain ++ [item]) p) fun p =>
        match selectFuel p.counts secondsNeeded with
        | some fuel => .ok (p.smelt item crafts route fuel)
        | none =>
            .error ⟨"fuel_unavailable", item, count, chain,
              .fuel secondsNeeded (usableFuels p.counts)⟩

def resolveSmelt (item : String) (count : Nat) (route : SmeltRoute) (chain : List String)
    (p : Planner) : Resolution :=
  let missing := count - held p.counts item
  let crafts := ceilDiv missing route.outputCount
  if missing = 0 then .ok p
  else unlessDeferred (resolve route.inputItem (crafts * route.inputCount) (chain ++ [item]) p)
    fun p =>
      if held p.counts "furnace" < 1 then
        unlessDeferred (resolve "furnace" 1 (chain ++ [item]) p)
          (resolveFuel resolve item count crafts route chain)
      else resolveFuel resolve item count crafts route chain p

/-- The loop of `_resolve_requirements`. -/
def resolveEach (chain : List String) : Dict String Nat → Planner → Resolution
  | [], p => .ok p
  | (ingredient, count) :: rest, p =>
      unlessDeferred (resolve ingredient count chain p) fun p => resolveEach chain rest p

/-- `_resolve_requirements`. -/
def resolveRequirements (required : Dict String Nat) (chain : List String) (p : Planner) :
    Resolution :=
  resolveEach resolve chain (required.insertionSort fun e e' =>
    toLex (ingredientPriority e.1, e.1) ≤ toLex (ingredientPriority e'.1, e'.1)) p

/-- The passes of `_resolve_craft` over the requirements; the step uses up the
requirements of the last pass. -/
def settleRequirements (item : String) (count : Nat) (chain : List String) (crafts : Nat)
    (variant : RecipeVariant) : Nat → Dict String Nat → Planner → Resolution
  | 0, required, p =>
      .error ⟨"ingredient_resolution_failed", item, count, chain, .requirements required p.counts⟩
  | passes + 1, required, p =>
      unlessDeferred (resolveRequirements resolve required (chain ++ [item]) p) fun p =>
        match missingRequirements required p.counts with
        | [] => .ok (p.craft item crafts variant required)
        | remaining => settleRequirements item count chain crafts variant passes remaining p

def resolveCraft (item : String) (count : Nat) (variants : List RecipeVariant)
    (chain : List String) (p : Planner) : Resolution :=
  let missing := count - held p.counts item
  if missing = 0 then .ok p
  else
    match chooseVariant lower item missing variants p.counts preferred with
    | none =>
        .error ⟨"recipe_not_found", item, count, chain, .variantCount variants.length⟩
    | some variant =>
        let crafts := ceilDiv missing variant.outputCount
        let settle (p : Planner) : Resolution :=
          settleRequirements resolve item count chain crafts variant (maxDepth + 1)
            (selectRequirements lower variant crafts p.counts preferred) p
        if variant.requiresTable ∧ item ≠ "crafting_table" ∧ held p.counts "crafting_table" < 1 then
          unlessDeferred (resolve "crafting_table" 1 (chain ++ [item]) p) settle
        else settle p

end

/-- `_Planner.resolve`, where `depth` calls may still be nested. -/
def resolve : Nat → Resolver := fun depth item count chain p =>
  let item := normalizeItem lower item
  if count = 0 ∨ count ≤ held p.counts item then .ok p
  else
    match depth with
    | 0 => .error ⟨"max_depth_exceeded", item, count, chain, .maxDepth maxDepth⟩
    | depth + 1 =>
        if item ∈ chain then
          .error ⟨"recipe_cycle", item, count, chain, .cycle (chain ++ [item])⟩
        else if item = "planks" then resolvePlankFamily (resolve depth) count chain p
        else
          match Dict.get? collectRoutes item with
          | some route => resolveCollect lower (resolve depth) item count route chain p
          | none =>
              match Dict.get? smeltRoutes item with
              | some smelt => resolveSmelt (resolve depth) item count smelt chain p
              | none =>
                  match recipeLookup item with
                  | none | some [] =>
                      .error ⟨"unplannable", item, count, chain, .missingRecipe item⟩
                  | some variants =>
                      resolveCraft lower maxDepth preferred (resolve depth) item count variants
                        chain p

end

/-! ## Plans -/

/-- `_step_key`: the steps of one key that follow each other become one. -/
def sameKey (left right : AcquisitionStep) : Bool :=
  left.item = right.item &&
    match left.detail, right.detail with
    | .collect _ _ drops .., .collect _ _ drops' .. => drops = drops'
    | .craft kind table .., .craft kind' table' .. => kind = kind' && table = table'
    | .smelt input _ fuel .., .smelt input' _ fuel' .. => input = input' && fuel = fuel'
    | .equip .., .equip .. | .equip .., .equipTarget .. => true
    | .equipTarget .., .equip .. | .equipTarget .., .equipTarget .. => true
    | _, _ => false

section

variable (lower : String → String)

def mergeStep (left right : AcquisitionStep) : AcquisitionStep :=
  let detail := match left.detail, right.detail with
    | .craft kind table output ingredients, .craft _ _ _ ingredients' =>
        .craft kind table output
          (mergeCounts (dictOfInts lower ingredients) (dictOfInts lower ingredients'))
    | .smelt input inputCount fuel fuelCount seconds, .smelt _ inputCount' _ fuelCount' seconds' =>
        .smelt input (inputCount + inputCount') fuel (fuelCount + fuelCount') (seconds + seconds')
    | detail, _ => detail
  ⟨left.item, left.count + right.count, detail⟩

/-- `_compact_steps`, from the last merged step on. -/
def compactFrom : AcquisitionStep → List AcquisitionStep → List AcquisitionStep
  | last, [] => [last]
  | last, step :: steps =>
      if sameKey last step then compactFrom (mergeStep lower last step) steps
      else last :: compactFrom step steps

def compactSteps : List AcquisitionStep → List AcquisitionStep
  | [] => []
  | step :: steps => compactFrom lower step steps

/-- `resolve_acquisition`. -/
def resolveAcquisition (recipeLookup : RecipeLookup) (maxDepth : Nat) (item : String) (count : Nat)
    (counts : Counts) : Except AcquisitionError (List AcquisitionStep) :=
  let counts := normalizeCounts lower counts
  match resolve lower recipeLookup maxDepth (preferredPlank counts) maxDepth
    (normalizeItem lower item) count [] ⟨counts, false, []⟩ with
  | .error e => .error e
  | .ok p => .ok (compactSteps lower p.steps)

end

end Acquisition

end MineBot
