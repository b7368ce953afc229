import Mathlib
import MineBot.Text

/-!
# Break legality

`GovernancePolicy.can_break` and the confirmations it runs on. A break of
ambiguous structure risk raises a *challenge*; `confirm_scope` turns a
challenge into a *permit* for a box around the position, a bounded number
of positions and a bounded time. Both live in a confirmation epoch, whose
name carries what the scope function answers, and both are pruned when
they are looked at.

The clock, the scope function, the assessor and `uuid4` answer through the
arguments of a call, one argument a reading. Clock readings are exact
rationals. `pyStr` is `str` of what the scope function returns.
-/

namespace MineBot

/-! ## Block types -/

/-- `NATURAL_GRASS_TYPES`. -/
def naturalGrassTypes : List String :=
  ["short_grass", "tall_grass", "fern", "large_fern"]

/-- `NATURAL_FLOWER_TYPES`. -/
def naturalFlowerTypes : List String :=
  ["dandelion", "poppy", "blue_orchid", "allium", "azure_bluet", "red_tulip", "orange_tulip",
   "white_tulip", "pink_tulip", "oxeye_daisy", "cornflower", "lily_of_the_valley", "sunflower",
   "lilac", "rose_bush", "peony", "torchflower", "pitcher_plant", "open_eyeblossom",
   "closed_eyeblossom"]

/-- `NATURAL_LEAF_TYPES`. -/
def naturalLeafTypes : List String :=
  ["oak_leaves", "spruce_leaves", "birch_leaves", "jungle_leaves", "acacia_leaves",
   "dark_oak_leaves", "mangrove_leaves", "cherry_leaves", "azalea_leaves",
   "flowering_azalea_leaves"]

/-- `NATURAL_BREAKABLE`. -/
def naturalBreakable : List String :=
  ["stone", "deepslate", "dirt", "grass_block", "gravel", "sand", "sandstone", "clay",
   "netherrack", "basalt", "blackstone", "end_stone", "obsidian", "cobblestone", "oak_log",
   "spruce_log", "birch_log", "jungle_log", "acacia_log", "dark_oak_log", "mangrove_log",
   "cherry_log", "coal_ore", "iron_ore", "copper_ore", "gold_ore", "redstone_ore", "lapis_ore",
   "diamond_ore", "emerald_ore", "deepslate_coal_ore", "deepslate_iron_ore",
   "deepslate_copper_ore", "deepslate_gold_ore", "deepslate_redstone_ore", "deepslate_lapis_ore",
   "deepslate_diamond_ore", "deepslate_emerald_ore"]
    ++ naturalFlowerTypes ++ naturalLeafTypes ++ naturalGrassTypes

/-- `COLLECT_TARGETS`. -/
def collectTargets : List String :=
  ["dirt", "grass_block", "gravel", "sand", "oak_log", "spruce_log", "birch_log", "jungle_log",
   "acacia_log", "dark_oak_log", "mangrove_log", "cherry_log", "coal_ore", "iron_ore",
   "copper_ore", "gold_ore", "redstone_ore", "lapis_ore", "diamond_ore", "emerald_ore",
   "deepslate_coal_ore", "deepslate_iron_ore", "deepslate_copper_ore", "deepslate_gold_ore",
   "deepslate_redstone_ore", "deepslate_lapis_ore", "deepslate_diamond_ore",
   "deepslate_emerald_ore"]
    ++ naturalFlowerTypes ++ naturalGrassTypes

/-- `RECOVERY_ROUTE_AVOID_TYPES`. -/
def recoveryRouteAvoidTypes : List String :=
  ["oak_log", "spruce_log", "birch_log", "jungle_log", "acacia_log", "dark_oak_log",
   "mangrove_log", "cherry_log", "coal_ore", "iron_ore", "copper_ore", "gold_ore", "redstone_ore",
   "lapis_ore", "diamond_ore", "emerald_ore", "deepslate_coal_ore", "deepslate_iron_ore",
   "deepslate_copper_ore", "deepslate_gold_ore", "deepslate_redstone_ore", "deepslate_lapis_ore",
   "deepslate_diamond_ore", "deepslate_emerald_ore"]

/-- `FARM_TARGETS`. -/
def farmTargets : List String :=
  ["wheat", "carrots", "potatoes", "beetroots"]

/-- `STRONGLY_PROTECTED_TYPES`. -/
def stronglyProtectedTypes : List String :=
  ["chest", "trapped_chest", "barrel", "furnace", "blast_furnace", "smoker", "crafting_table",
   "bed", "white_bed", "orange_bed", "magenta_bed", "light_blue_bed", "yellow_bed", "lime_bed",
   "pink_bed", "gray_bed", "light_gray_bed", "cyan_bed", "purple_bed", "blue_bed", "brown_bed",
   "green_bed", "red_bed", "black_bed", "oak_door", "spruce_door", "birch_door", "jungle_door",
   "acacia_door", "dark_oak_door", "mangrove_door", "cherry_door", "iron_door", "lever",
   "redstone", "redstone_wire", "redstone_torch", "repeater", "comparator", "hopper", "dispenser",
   "dropper", "piston", "sticky_piston", "farmland", "wheat", "carrots", "potatoes", "beetroots",
   "sign", "oak_sign", "spruce_sign", "birch_sign", "jungle_sign", "acacia_sign", "dark_oak_sign",
   "mangrove_sign", "cherry_sign", "glass", "glass_pane", "bricks", "stone_bricks",
   "polished_blackstone_bricks", "quartz_block", "lantern", "torch"]

/-- `TEMPORARY_BOT_PURPOSES`. -/
def temporaryBotPurposes : List String :=
  ["scaffold", "seal", "bridge", "pillar", "workstation", "temporary_furnace",
   "temporary_furnace_auto_site", "temporary_light"]


/-- `normalize_block_type`. -/
def normalizeBlockType (blockType : String) : String :=
  if "minecraft:".toList <+: blockType.toList then .ofList (blockType.toList.drop 10)
  else blockType

/-! ## Contract types -/

abbrev Position := Int × Int × Int

inductive BreakContext where
  | path
  | travel
  | collect
  | collectApproach
  | farm
  | recovery
  | direct
  | botCleanup
deriving DecidableEq

inductive StructureRiskLevel where
  | low
  | ambiguous
  | high
deriving DecidableEq

structure Region where
  name : String
  minPos : Position
  maxPos : Position

/-- `Region.contains`. -/
def Region.contains (r : Region) (pos : Position) : Bool :=
  (r.minPos.1 ≤ pos.1 ∧ pos.1 ≤ r.maxPos.1)
    ∧ (r.minPos.2.1 ≤ pos.2.1 ∧ pos.2.1 ≤ r.maxPos.2.1)
    ∧ (r.minPos.2.2 ≤ pos.2.2 ∧ pos.2.2 ≤ r.maxPos.2.2)

structure BotPlacement where
  pos : Position
  blockType : String
  purpose : String
  bot : String

structure StructureRiskAssessment where
  pos : Position
  blockType : String
  level : StructureRiskLevel
  score : Rat
  complete : Bool
  sampledCells : Nat
  signals : List String
  source : String

/-- `_structure_risk_payload`. -/
structure StructureRiskPayload where
  level : StructureRiskLevel
  score : Rat
  complete : Bool
  sampledCells : Nat
  signals : List String
  source : String

/-- `_structure_risk_payload`. -/
def structureRiskPayload (a : StructureRiskAssessment) : StructureRiskPayload :=
  ⟨a.level, a.score, a.complete, a.sampledCells, a.signals, a.source⟩

/-! ## Challenges and permits -/

structure GovernanceChallenge where
  challengeId : String
  bot : Option String
  context : BreakContext
  blockTypes : List String
  region : Region
  maxUniqueBlocks : Nat
  createdAt : Rat
  expiresAt : Rat
  epoch : String
  evidence : StructureRiskPayload
  actionIds : List String

structure GovernancePermit where
  permitId : String
  challengeId : String
  bot : Option String
  context : BreakContext
  blockTypes : List String
  region : Region
  maxUniqueBlocks : Nat
  expiresAt : Rat
  epoch : String
  purpose : String
  authorizedPositions : Finset Position

/-- `_CONFIRMATION_MAX_UNIQUE_BLOCKS`, with its default. -/
def confirmationMaxUniqueBlocks : BreakContext → Nat
  | .travel => 8
  | .collect => 12
  | .collectApproach => 32
  | .recovery => 96
  | _ => 8

/-- `_CONFIRMATION_HORIZONTAL_RADIUS`, with its default. -/
def confirmationHorizontalRadius : BreakContext → Int
  | .recovery => 16
  | _ => 0

/-- `_CONFIRMATION_VERTICAL_RADIUS`, with its default. -/
def confirmationVerticalRadius : BreakContext → Int
  | .collectApproach => 8
  | .recovery => 32
  | _ => 0

/-- `round(max(0.0, q), 3)`: the half goes to the even neighbour. -/
def ttlRemaining (q : Rat) : Rat :=
  let scaled := max 0 q * 1000
  let fraction := scaled - scaled.floor
  (if fraction < 1 / 2 ∨ fraction = 1 / 2 ∧ scaled.floor % 2 = 0 then scaled.floor
    else scaled.floor + 1) / 1000

/-- `_challenge_payload`. -/
structure ChallengePayload where
  challengeId : String
  bot : Option String
  context : BreakContext
  blockTypes : List String
  minPos : Position
  maxPos : Position
  maxUniqueBlocks : Nat
  ttlRemaining : Rat
  evidence : StructureRiskPayload

/-- `_challenge_payload`. -/
def GovernanceChallenge.payload (c : GovernanceChallenge) (now : Rat) : ChallengePayload where
  challengeId := c.challengeId
  bot := c.bot
  context := c.context
  blockTypes := c.blockTypes
  minPos := c.region.minPos
  maxPos := c.region.maxPos
  maxUniqueBlocks := c.maxUniqueBlocks
  ttlRemaining := MineBot.ttlRemaining (c.expiresAt - now)
  evidence := c.evidence

/-- `_permit_payload`. -/
structure PermitPayload where
  permitId : String
  challengeId : String
  bot : Option String
  context : BreakContext
  blockTypes : List String
  minPos : Position
  maxPos : Position
  maxUniqueBlocks : Nat
  authorizedUniqueBlocks : Nat
  ttlRemaining : Rat
  purpose : String

/-- `_permit_payload`. -/
def GovernancePermit.payload (t : GovernancePermit) (now : Rat) : PermitPayload where
  permitId := t.permitId
  challengeId := t.challengeId
  bot := t.bot
  context := t.context
  blockTypes := t.blockTypes
  minPos := t.region.minPos
  maxPos := t.region.maxPos
  maxUniqueBlocks := t.maxUniqueBlocks
  authorizedUniqueBlocks := t.authorizedPositions.card
  ttlRemaining := MineBot.ttlRemaining (t.expiresAt - now)
  purpose := t.purpose

/-! ## Decisions -/

inductive DecisionDetails where
  | none
  | botMismatch (expectedBot : String) (observedBot : String)
  | region (name : String)
  | ledger (ledgerType observedType : String)
  | risk (risk : StructureRiskPayload)
  | permitted (risk : StructureRiskPayload) (permit : PermitPayload)
  | challenged (risk : StructureRiskPayload) (challenge : ChallengePayload)

structure LegalityDecision where
  allowed : Bool
  reason : String
  isProtected : Bool := false
  botOwned : Bool := false
  naturalRegion : Option String := none
  details : DecisionDetails := .none

/-! ## The policy -/

structure GovernancePolicy where
  naturalRegions : List Region
  protectedRegions : List Region
  botPlacements : Dict Position BotPlacement
  /-- `structure_risk_assessor is not None` -/
  assessed : Bool
  requireStructureAssessment : Bool
  botName : Option String
  confirmationTtl : Rat
  confirmationRadius : Int
  confirmationVerticalRadius : Int
  /-- a scope function is bound; without one the scope is `None` -/
  scopeBound : Bool
  confirmationEpoch : String
  pendingChallenges : Dict String GovernanceChallenge
  activePermits : Dict String GovernancePermit

/-- What the assessor does. -/
inductive AssessorAnswer where
  | assesses (assessment : StructureRiskAssessment)
  | fails (exceptionName : String)

structure BreakCall where
  pos : Position
  blockType : String
  context : BreakContext
  explicitTarget : Bool
  bot : Option String
  actionId : Option String

/-- The readings of one `can_break`. A scope function that raises reads as
`none`. -/
structure BreakReadings (σ : Type) where
  answer : AssessorAnswer
  /-- of `_authorize_from_confirmed_scope` -/
  authorizeNow : Rat
  /-- of its pruning, then of its look at the permits -/
  authorizeScopes : Option σ × Option σ
  /-- of `_pending_confirmation` -/
  pendingNow : Rat
  /-- of its pruning, then of its look at the challenges -/
  pendingScopes : Option σ × Option σ
  challengeId : String

/-- `actor = bot or self.bot_name`. -/
def actorOf (bot botName : Option String) : Option String :=
  match bot with
  | some b => if b = "" then botName else some b
  | none => botName

namespace GovernancePolicy

section Policy

variable {σ : Type} (pyStr : σ → String) (p : GovernancePolicy)

/-- `_region_containing`. -/
def regionContaining (regions : List Region) (pos : Position) : Option Region :=
  regions.find? (·.contains pos)

/-- `str` of what the scope function answers. -/
def scopeText (reading : Option σ) : String :=
  if p.scopeBound then (reading.map pyStr).getD "None" else "None"

/-- `_current_confirmation_epoch`. -/
def currentConfirmationEpoch (reading : Option σ) : String :=
  p.confirmationEpoch ++ ":" ++ p.scopeText pyStr reading

/-- `_prune_confirmation_state`. -/
def pruneConfirmationState (now : Rat) (reading : Option σ) : GovernancePolicy :=
  let epoch := p.currentConfirmationEpoch pyStr reading
  { p with
    pendingChallenges := p.pendingChallenges.filter fun (_, c) =>
      c.expiresAt > now ∧ c.epoch = epoch
    activePermits := p.activePermits.filter fun (_, t) => t.expiresAt > now ∧ t.epoch = epoch }

/-! ## Permits -/

/-- The permit is for such a break. -/
def covers (epoch : String) (bot : Option String) (context : BreakContext) (blockType : String)
    (pos : Position) (t : GovernancePermit) : Bool :=
  t.epoch = epoch ∧ t.bot = bot ∧ t.context = context ∧ blockType ∈ t.blockTypes
    ∧ t.region.contains pos

/-- The permit has no room for the position. -/
def exhausted (pos : Position) (t : GovernancePermit) : Bool :=
  pos ∉ t.authorizedPositions ∧ t.maxUniqueBlocks ≤ t.authorizedPositions.card

/-- The loop of `_authorize_from_confirmed_scope`. -/
def authorizeScan (covers : GovernancePermit → Bool) (pos : Position) :
    List (String × GovernancePermit) → Dict String GovernancePermit →
      Option GovernancePermit × Dict String GovernancePermit
  | [], active => (none, active)
  | (permitId, t) :: permits, active =>
      if !covers t then authorizeScan covers pos permits active
      else if exhausted pos t then authorizeScan covers pos permits (active.pop permitId)
      else
        let t' := { t with authorizedPositions := insert pos t.authorizedPositions }
        (some t', active.set permitId t')

/-- `_authorize_from_confirmed_scope`. -/
def authorizeFromConfirmedScope (pos : Position) (blockType : String) (context : BreakContext)
    (bot : Option String) (now : Rat) (scopes : Option σ × Option σ) :
    Option PermitPayload × GovernancePolicy :=
  let p := p.pruneConfirmationState pyStr now scopes.1
  let epoch := p.currentConfirmationEpoch pyStr scopes.2
  let (permit, active) :=
    authorizeScan (covers epoch bot context blockType pos) pos p.activePermits p.activePermits
  (permit.map (·.payload now), { p with activePermits := active })

/-! ## Challenges -/

/-- `action_ids.add(action_id)`, when there is one. -/
def addAction (actionIds : List String) (actionId : Option String) : List String :=
  match actionId with
  | some id => if id = "" ∨ id ∈ actionIds then actionIds else actionIds ++ [id]
  | none => actionIds

/-- The box around the position. -/
def confirmationRegion (challengeId : String) (context : BreakContext) (pos : Position) : Region :=
  let horizontal := max p.confirmationRadius (confirmationHorizontalRadius context)
  let vertical := max p.confirmationVerticalRadius (MineBot.confirmationVerticalRadius context)
  { name := "governance-confirmation:" ++ challengeId
    minPos := (pos.1 - horizontal, pos.2.1 - vertical, pos.2.2 - horizontal)
    maxPos := (pos.1 + horizontal, pos.2.1 + vertical, pos.2.2 + horizontal) }

/-- `_pending_confirmation`. -/
def pendingConfirmation (pos : Position) (blockType : String) (context : BreakContext)
    (assessment : StructureRiskAssessment) (bot : Option String) (actionId : Option String)
    (now : Rat) (scopes : Option σ × Option σ) (challengeId : String) :
    ChallengePayload × GovernancePolicy :=
  let p := p.pruneConfirmationState pyStr now scopes.1
  let epoch := p.currentConfirmationEpoch pyStr scopes.2
  match p.pendingChallenges.find? fun (_, c) => c.epoch = epoch ∧ c.bot = bot
      ∧ c.context = context ∧ blockType ∈ c.blockTypes ∧ c.region.contains pos with
  | some (key, c) =>
      (c.payload now,
        { p with
          pendingChallenges := p.pendingChallenges.set key
            { c with actionIds := addAction c.actionIds actionId } })
  | none =>
      let c : GovernanceChallenge := {
        challengeId := challengeId
        bot := bot
        context := context
        blockTypes := [blockType]
        region := p.confirmationRegion challengeId context pos
        maxUniqueBlocks := confirmationMaxUniqueBlocks context
        createdAt := now
        expiresAt := now + p.confirmationTtl
        epoch := epoch
        evidence := structureRiskPayload assessment
        actionIds := addAction [] actionId }
      (c.payload now, { p with pendingChallenges := p.pendingChallenges.set challengeId c })

/-! ## `can_break` -/

/-- `_can_break_bot_owned`. -/
def canBreakBotOwned (entry : BotPlacement) (blockType : String) (context : BreakContext) :
    LegalityDecision :=
  if entry.blockType ≠ blockType then
    { allowed := false, reason := "bot_ledger_type_mismatch", isProtected := true, botOwned := true
      details := .ledger entry.blockType blockType }
  else if context ≠ .botCleanup ∧ entry.purpose ∉ temporaryBotPurposes then
    { allowed := false, reason := "bot_owned_not_temporary", isProtected := true, botOwned := true }
  else { allowed := true, reason := "allowed_bot_owned", botOwned := true }

/-- `_assess_structure_risk`. -/
def assessStructureRisk (pos : Position) (blockType : String) (answer : AssessorAnswer) :
    Option StructureRiskAssessment :=
  if p.assessed then
    match answer with
    | .assesses assessment => some assessment
    | .fails exceptionName => some {
        pos := pos
        blockType := blockType
        level := .ambiguous
        score := 1
        complete := false
        sampledCells := 0
        signals := ["assessor_failed:" ++ exceptionName]
        source := "voxel" }
  else none

/-- The checks of `can_break` on type, region and context; `none` goes on
to the structure risk. -/
def breakByType (blockType : String) (context : BreakContext) (explicitTarget : Bool)
    (natural : Option Region) : Option LegalityDecision :=
  let region := natural.map (·.name)
  if context = .farm ∧ blockType ∈ farmTargets then
    match natural with
    | none => some { allowed := false, reason := "unknown_provenance", isProtected := true }
    | some natural => some
        { allowed := true, reason := "allowed_natural_farm", naturalRegion := natural.name }
  else if blockType ∈ stronglyProtectedTypes then
    some { allowed := false, reason := "protected_type", isProtected := true }
  else if natural.isNone ∧ context = .travel then
    some { allowed := false, reason := "unknown_provenance", isProtected := true }
  else if blockType ∉ naturalBreakable then
    some { allowed := false, reason := "not_natural_breakable", isProtected := true
           naturalRegion := region }
  else if context = .path then
    some { allowed := false, reason := "path_no_terrain_break", naturalRegion := region }
  else if context = .recovery ∧ blockType ∈ recoveryRouteAvoidTypes then
    some { allowed := false, reason := "recovery_no_resource_break", naturalRegion := region }
  else if context = .collect ∧ blockType ∉ collectTargets ∧ explicitTarget = false then
    some { allowed := false, reason := "collect_target_required", naturalRegion := region }
  else if context = .botCleanup then
    some { allowed := false, reason := "not_bot_owned", isProtected := true
           naturalRegion := region }
  else none

/-- The end of `can_break`: the structure risk, and what was confirmed. -/
def breakByRisk (blockType : String) (actor : Option String) (region : Option String)
    (call : BreakCall) (readings : BreakReadings σ) : LegalityDecision × GovernancePolicy :=
  match p.assessStructureRisk call.pos blockType readings.answer with
  | none =>
      if p.requireStructureAssessment then
        ({ allowed := false, reason := "structure_assessment_required", isProtected := true
           naturalRegion := region }, p)
      else ({ allowed := true, reason := "allowed_natural", naturalRegion := region }, p)
  | some assessment =>
      let risk := structureRiskPayload assessment
      if assessment.complete = false then
        ({ allowed := false, reason := "structure_risk_unknown", isProtected := true
           naturalRegion := region, details := .risk risk }, p)
      else match assessment.level with
      | .high =>
          ({ allowed := false, reason := "player_structure_risk", isProtected := true
             naturalRegion := region, details := .risk risk }, p)
      | .ambiguous =>
          match p.authorizeFromConfirmedScope pyStr call.pos blockType call.context actor
              readings.authorizeNow readings.authorizeScopes with
          | (some permit, p) =>
              ({ allowed := true, reason := "allowed_governance_scope", naturalRegion := region
                 details := .permitted risk permit }, p)
          | (none, p) =>
              let (challenge, p) := p.pendingConfirmation pyStr call.pos blockType call.context
                assessment actor call.actionId readings.pendingNow readings.pendingScopes
                readings.challengeId
              ({ allowed := false, reason := "governance_confirmation_required"
                 naturalRegion := region, details := .challenged risk challenge }, p)
      | .low =>
          ({ allowed := true, reason := "allowed_natural", naturalRegion := region
             details := .risk risk }, p)

/-- The actor and the policy's bot are both named, and not the same. -/
def mismatch? (actor : Option String) : Option (String × String) :=
  match p.botName, actor with
  | some expected, some observed => if observed ≠ expected then some (expected, observed) else none
  | _, _ => none

/-- `can_break`. -/
def canBreak (call : BreakCall) (readings : BreakReadings σ) :
    LegalityDecision × GovernancePolicy :=
  let blockType := normalizeBlockType call.blockType
  let actor := actorOf call.bot p.botName
  match p.mismatch? actor with
  | some (expected, observed) =>
      ({ allowed := false, reason := "governance_bot_mismatch", isProtected := true
         details := .botMismatch expected observed }, p)
  | none =>
  match regionContaining p.protectedRegions call.pos with
  | some region =>
      ({ allowed := false, reason := "protected_region", isProtected := true
         details := .region region.name }, p)
  | none =>
  match p.botPlacements.get? call.pos with
  | some entry => (canBreakBotOwned entry blockType call.context, p)
  | none =>
  let natural := regionContaining p.naturalRegions call.pos
  match breakByType blockType call.context call.explicitTarget natural with
  | some decision => (decision, p)
  | none => p.breakByRisk pyStr blockType actor (natural.map (·.name)) call readings

/-! ## Confirmations -/

/-- `begin_confirmation_epoch`. -/
def beginConfirmationEpoch (scopeBound : Bool) (epoch : String) : GovernancePolicy :=
  { p with
    pendingChallenges := []
    activePermits := []
    scopeBound := scopeBound
    confirmationEpoch := epoch }

/-- `invalidate_confirmation_state`. -/
def invalidateConfirmationState (epoch : String) : GovernancePolicy :=
  { p with pendingChallenges := [], activePermits := [], confirmationEpoch := epoch }

/-- `pending_confirmations`. -/
def pendingConfirmations (actionId : Option String) (now : Rat) (scope : Option σ) :
    List ChallengePayload × GovernancePolicy :=
  let p := p.pruneConfirmationState pyStr now scope
  let challenges := (p.pendingChallenges.map Prod.snd).filter fun c =>
    match actionId with
    | none => true
    | some actionId => actionId ∈ c.actionIds
  ((challenges.insertionSort fun a b => a.createdAt < b.createdAt
      ∨ a.createdAt = b.createdAt ∧ a.challengeId ≤ b.challengeId).map (·.payload now), p)

/-- What `confirm_scope` answers. -/
inductive ConfirmAnswer where
  /-- governance_challenge_not_pending -/
  | notPending (challengeId : String)
  /-- governance_confirmation_purpose_required -/
  | purposeRequired (challengeId : String)
  /-- governance_scope_confirmed -/
  | confirmed (challengeId : String) (permit : PermitPayload)

/-- The permit a challenge turns into. -/
def permitOf (c : GovernanceChallenge) (permitId purpose : String) : GovernancePermit where
  permitId := permitId
  challengeId := c.challengeId
  bot := c.bot
  context := c.context
  blockTypes := c.blockTypes
  region := c.region
  maxUniqueBlocks := c.maxUniqueBlocks
  expiresAt := c.expiresAt
  epoch := c.epoch
  purpose := purpose
  authorizedPositions := ∅

/-- `confirm_scope`. -/
def confirmScope (challengeId purpose : String) (now : Rat) (scope : Option σ)
    (permitId : String) : ConfirmAnswer × GovernancePolicy :=
  let normalizedId := pyStrip challengeId
  let normalizedPurpose := boundedText purpose 160
  let p := p.pruneConfirmationState pyStr now scope
  match p.pendingChallenges.get? normalizedId with
  | none => (.notPending normalizedId, p)
  | some c =>
      let pending := p.pendingChallenges.pop normalizedId
      if normalizedPurpose = "" then
        (.purposeRequired normalizedId,
          { p with pendingChallenges := pending.set normalizedId c })
      else
        let t := permitOf c permitId normalizedPurpose
        (.confirmed c.challengeId (t.payload now),
          { p with
            pendingChallenges := pending
            activePermits := p.activePermits.set permitId t })

/-- What `dismiss_action_confirmations` leaves of a challenge. -/
def dismissFrom (actionId : String) (c : GovernanceChallenge) : Option GovernanceChallenge :=
  if actionId ∉ c.actionIds then some c
  else
    let actionIds := c.actionIds.filter (· ≠ actionId)
    if actionIds = [] then none else some { c with actionIds := actionIds }

/-- `dismiss_action_confirmations`. -/
def dismissActionConfirmations (actionId : String) : GovernancePolicy :=
  { p with
    pendingChallenges := p.pendingChallenges.filterMap fun e =>
      (dismissFrom actionId e.2).map (e.1, ·) }

/-- `record_bot_placement`. -/
def recordBotPlacement (pos : Position) (blockType purpose bot : String) : GovernancePolicy :=
  { p with
    botPlacements := p.botPlacements.set pos ⟨pos, normalizeBlockType blockType, purpose, bot⟩ }

end Policy

/-- `__init__`. -/
def init (naturalRegions protectedRegions : List Region) (botPlacements : List BotPlacement)
    (assessed requireStructureAssessment : Bool) (botName : Option String) (confirmationTtl : Rat)
    (confirmationRadius confirmationVerticalRadius : Int) (epoch : String) : GovernancePolicy where
  naturalRegions := naturalRegions
  protectedRegions := protectedRegions
  botPlacements := Dict.update [] (botPlacements.map fun entry => (entry.pos, entry))
  assessed := assessed
  requireStructureAssessment := requireStructureAssessment
  botName := botName
  confirmationTtl := max 1 confirmationTtl
  confirmationRadius := max 1 confirmationRadius
  confirmationVerticalRadius := max 0 confirmationVerticalRadius
  scopeBound := false
  confirmationEpoch := epoch
  pendingChallenges := []
  activePermits := []

end GovernancePolicy

end MineBot
