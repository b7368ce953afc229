import Mathlib
import MineBot.Dict
import MineBot.Governance

/-!
# Structure risk

`_classify_voxels` scores the risk that a break damages a structure, from
the voxels around it: functional or manufactured neighbours, the shape the
target is part of, and the context of the break. More evidence of players
does not always raise the level: functional blocks count less than five
manufactured ones, and a block set next to a column is no column any more.

Scores are exact decimals. `riskLevel_cents` reads the level off a total in
hundredths; all the terms are such.
-/

namespace MineBot

namespace StructureRisk

/-! ## Block types -/

def endsWith (text suffix : String) : Bool := suffix.toList.isSuffixOf text.toList

/-- `_CLEAR_TYPES`. -/
def clearTypes : List String := ["air", "cave_air", "void_air", "water", "lava"]

/-- `_ROOT_TYPES`. -/
def rootTypes : List String :=
  ["dirt", "grass_block", "podzol", "coarse_dirt", "rooted_dirt", "mud"]

/-- `_MANUFACTURED_EXACT`. -/
def manufacturedExact : List String :=
  ["bookshelf", "ladder", "rail", "powered_rail", "detector_rail", "activator_rail", "chain",
   "scaffolding", "hay_block", "target"]

/-- `_MANUFACTURED_SUFFIXES`. -/
def manufacturedSuffixes : List String :=
  ["_planks", "_stairs", "_slab", "_fence", "_fence_gate", "_wall", "_door", "_trapdoor",
   "_button", "_pressure_plate", "_sign", "_hanging_sign", "_wool", "_carpet", "_concrete",
   "_concrete_powder", "_glazed_terracotta"]

/-- `_is_manufactured`. -/
def isManufactured (blockType : String) : Bool :=
  blockType ∈ stronglyProtectedTypes ∨ blockType ∈ manufacturedExact
    ∨ manufacturedSuffixes.any (endsWith blockType)

/-! ## Shapes -/

/-- The voxels of a window. -/
abbrev Cells := Dict Position String

/-- The neighbour at an offset. -/
def offsetBy (pos : Position) (offset : Int × Int × Int) : Position :=
  (pos.1 + offset.1, pos.2.1 + offset.2.1, pos.2.2 + offset.2.2)

/-- `_sample_positions`. -/
def samplePositions (pos : Position) : List Position :=
  [-3, -2, -1, 0, 1, 2, 3].flatMap fun dy =>
    [-1, 0, 1].flatMap fun dx => [-1, 0, 1].map fun dz => offsetBy pos (dx, dy, dz)

section Shapes

variable (pos : Position) (blockType : String) (cells : Cells)

/-- How many neighbours at the offsets are of the target's type. -/
def same (offsets : List (Int × Int × Int)) : Nat :=
  offsets.countP fun offset => cells.get? (offsetBy pos offset) = some blockType

def sides : List (Int × Int × Int) := [(-1, 0, 0), (1, 0, 0), (0, 0, -1), (0, 0, 1)]

/-- The neighbour is clear. -/
def clearAt (offset : Int × Int × Int) : Bool :=
  (cells.get? (offsetBy pos offset)).any (· ∈ clearTypes)

/-- `_log_risk`, with its signals. -/
def logRisk : Rat × List String :=
  let vertical := same pos blockType cells [(0, -2, 0), (0, -1, 0), (0, 1, 0), (0, 2, 0)]
  let horizontal := same pos blockType cells sides
  let rooted := [-3, -2, -1].any fun dy => (cells.get? (offsetBy pos (0, dy, 0))).any (· ∈ rootTypes)
  let leafCount := cells.countP fun cell => endsWith cell.2 "_leaves"
  let column : Rat × List String :=
    if 0 < vertical ∧ rooted then (-45 / 100, ["rooted_vertical_log"])
    else if 2 ≤ vertical then (-20 / 100, ["vertical_log_column"])
    else (0, [])
  let leaves : Rat × List String :=
    if 0 < leafCount then (-35 / 100, [s!"nearby_leaves:{leafCount}"]) else (0, [])
  let beam : Rat × List String :=
    if vertical < horizontal then (35 / 100, ["horizontal_log_pattern"]) else (0, [])
  let bare : Rat × List String :=
    if vertical = 0 ∧ !rooted ∧ leafCount = 0 then (35 / 100, ["log_without_tree_evidence"])
    else (0, [])
  (column.1 + leaves.1 + beam.1 + bare.1, column.2 ++ leaves.2 ++ beam.2 ++ bare.2)

def heights : List Int := [-3, -2, -1, 0, 1, 2, 3]

def breadths : List Int := [-1, 0, 1]

/-- How many pairs of opposite neighbours are alike and not clear. -/
def mirrored : Nat :=
  (([(1, 0), (0, 1), (1, 1), (1, -1)] : List (Int × Int)).flatMap fun (dx, dz) =>
    breadths.map fun dy => (dx, dy, dz)).countP fun (dx, dy, dz) =>
      let left := cells.get? (offsetBy pos (-dx, dy, -dz))
      let right := cells.get? (offsetBy pos (dx, dy, dz))
      left = right ∧ !right.any (· ∈ clearTypes)

/-- `_regular_surface_risk`, with its signals. -/
def regularSurfaceRisk : Rat × List String :=
  let verticalColumn := same pos blockType cells (heights.map fun dy => (0, dy, 0))
  let horizontalSame := same pos blockType cells sides
  let clearSides := sides.countP (clearAt pos cells)
  let xPlane := same pos blockType cells
    (heights.flatMap fun dy => breadths.map fun dz => (0, dy, dz))
  let zPlane := same pos blockType cells
    (heights.flatMap fun dy => breadths.map fun dx => (dx, dy, 0))
  if 4 ≤ verticalColumn ∧ horizontalSame = 0 ∧ 3 ≤ clearSides then
    (55 / 100, ["isolated_vertical_column"])
  else if (clearAt pos cells (-1, 0, 0) ∨ clearAt pos cells (1, 0, 0)) ∧ 12 ≤ xPlane
      ∨ (clearAt pos cells (0, 0, -1) ∨ clearAt pos cells (0, 0, 1)) ∧ 12 ≤ zPlane then
    (35 / 100, ["exposed_regular_plane"])
  else if 8 ≤ mirrored pos cells then (20 / 100, ["local_axis_symmetry"])
  else (0, [])

end Shapes

/-! ## The score -/

/-- The ledger has a receipt for this block. -/
def botOwned (botPlacements : Option (Dict Position BotPlacement)) (cell : Position × String) :
    Bool :=
  (botPlacements.bind (Dict.get? · cell.1)).any fun receipt =>
    normalizeBlockType receipt.blockType = cell.2

/-- The window without the blocks the bot has placed. -/
def assessmentCells (pos : Position) (cells : Cells)
    (botPlacements : Option (Dict Position BotPlacement)) : Cells :=
  cells.map fun cell =>
    (cell.1, if cell.1 ≠ pos ∧ botOwned botPlacements cell then "air" else cell.2)

/-- How many neighbours are of such a type. -/
def countNearby (pos : Position) (cells : Cells) (p : String → Bool) : Nat :=
  cells.countP fun cell => cell.1 ≠ pos ∧ p cell.2

/-- The term of functional or manufactured neighbours. -/
def neighbourRisk (isProtected manufactured : Nat) : Rat × List String :=
  if 0 < isProtected then (80 / 100, [s!"functional_blocks:{isProtected}"])
  else if 0 < manufactured then
    (min (85 / 100) (65 / 100 + 4 / 100 * manufactured), [s!"manufactured_blocks:{manufactured}"])
  else (0, [])

/-- The term of the shape. -/
def shapeRisk (pos : Position) (blockType : String) (cells : Cells) : Rat × List String :=
  if endsWith blockType "_log" then logRisk pos blockType cells
  else if endsWith blockType "_ore" then (-35 / 100, ["ore_natural_prior"])
  else regularSurfaceRisk pos blockType cells

/-- `context.value`. -/
def contextValue : BreakContext → String
  | .path => "path"
  | .travel => "travel"
  | .collect => "collect"
  | .collectApproach => "collect_approach"
  | .farm => "farm"
  | .recovery => "recovery"
  | .direct => "direct"
  | .botCleanup => "bot_cleanup"

/-- The term of the context. -/
def contextRisk (context : BreakContext) : Rat × List String :=
  match context with
  | .travel | .collectApproach | .recovery =>
      (10 / 100, [s!"conservative_context:{contextValue context}"])
  | .collect => (-10 / 100, ["collect_target_prior"])
  | _ => (0, [])

/-- `round(score, 3)`: the half goes to the even neighbour. -/
def roundTo3 (score : Rat) : Rat :=
  let scaled := score * 1000
  let fraction := scaled - scaled.floor
  (if fraction < 1 / 2 ∨ fraction = 1 / 2 ∧ scaled.floor % 2 = 0 then scaled.floor
    else scaled.floor + 1) / 1000

/-- The score of a total. -/
def riskScore (total : Rat) : Rat := roundTo3 (max 0 (min 1 total))

/-- The level of a score. -/
def levelOf (score : Rat) : StructureRiskLevel :=
  if 65 / 100 ≤ score then .high else if 3 / 10 ≤ score then .ambiguous else .low

/-- `_classify_voxels`. -/
def classifyVoxels (pos : Position) (blockType : String) (context : BreakContext) (cells : Cells)
    (botPlacements : Option (Dict Position BotPlacement)) : StructureRiskAssessment :=
  let botOwnedNeighbors := cells.countP fun cell => cell.1 ≠ pos ∧ botOwned botPlacements cell
  let assessed := assessmentCells pos cells botPlacements
  let neighbours := neighbourRisk (countNearby pos assessed (· ∈ stronglyProtectedTypes))
    (countNearby pos assessed isManufactured)
  let shape := shapeRisk pos blockType assessed
  let prior := contextRisk context
  let palette := ((assessed.map Prod.snd).filter (· ∉ clearTypes)).dedup.length
  let score := riskScore (neighbours.1 + shape.1 + prior.1)
  { pos := pos
    blockType := blockType
    level := levelOf score
    score := score
    complete := true
    sampledCells := cells.length
    signals := (if botOwnedNeighbors = 0 then [] else [s!"bot_owned_neighbors:{botOwnedNeighbors}"])
      ++ neighbours.2 ++ shape.2 ++ prior.2 ++ [s!"solid_palette:{palette}"]
    source := "voxel" }

/-! ## Totals in hundredths -/

/-- A total of hundredths is its own score, clamped. -/
theorem riskScore_cents (n : Int) : riskScore (n / 100) = (max 0 (min 100 n) : Int) / 100 := by
  have hclamp : max 0 (min 1 ((n : Rat) / 100)) = ((max 0 (min 100 n) : Int) : Rat) / 100 := by
    rcases le_total n 0 with hn | hn
    · have hle : (n : Rat) / 100 ≤ 0 := div_nonpos_of_nonpos_of_nonneg (by exact_mod_cast hn) (by norm_num)
      rw [min_eq_right (hle.trans zero_le_one), max_eq_left hle, min_eq_right (by omega),
        max_eq_left hn]
      norm_num
    · rcases le_total n 100 with hn' | hn'
      · have hle : (n : Rat) / 100 ≤ 1 := by
          rw [div_le_one (by norm_num)]
          exact_mod_cast hn'
        have hge : 0 ≤ (n : Rat) / 100 := div_nonneg (by exact_mod_cast hn) (by norm_num)
        rw [min_eq_right hle, max_eq_right hge, min_eq_right hn', max_eq_right hn]
      · have hge : 1 ≤ (n : Rat) / 100 := by
          rw [le_div_iff₀ (by norm_num)]
          exact_mod_cast hn'
        rw [min_eq_left hge, max_eq_right zero_le_one, min_eq_left hn', max_eq_right (by omega)]
        norm_num
  rw [riskScore, hclamp, roundTo3]
  have hscaled : ((max 0 (min 100 n) : Int) : Rat) / 100 * 1000
      = ((10 * max 0 (min 100 n) : Int) : Rat) := by
    push_cast
    ring
  simp only [hscaled, Rat.floor_intCast, sub_self]
  rw [if_pos (.inl (by norm_num))]
  push_cast
  ring

/-- The level as a number. -/
def rank : StructureRiskLevel → Nat
  | .low => 0
  | .ambiguous => 1
  | .high => 2

/-- The level of a total in hundredths. -/
theorem rank_cents (n : Int) :
    rank (levelOf (riskScore (n / 100))) = if 65 ≤ n then 2 else if 30 ≤ n then 1 else 0 := by
  rw [riskScore_cents, levelOf]
  have hhigh : (65 / 100 : Rat) ≤ ((max 0 (min 100 n) : Int) : Rat) / 100 ↔ 65 ≤ n := by
    rw [div_le_div_iff_of_pos_right (by norm_num)]
    constructor
    · intro h
      have h' : (65 : Int) ≤ max 0 (min 100 n) := by exact_mod_cast h
      omega
    · intro h
      have h' : (65 : Int) ≤ max 0 (min 100 n) := by omega
      exact_mod_cast h'
  have hambiguous : (3 / 10 : Rat) ≤ ((max 0 (min 100 n) : Int) : Rat) / 100 ↔ 30 ≤ n := by
    rw [show (3 / 10 : Rat) = 30 / 100 by norm_num, div_le_div_iff_of_pos_right (by norm_num)]
    constructor
    · intro h
      have h' : (30 : Int) ≤ max 0 (min 100 n) := by exact_mod_cast h
      omega
    · intro h
      have h' : (30 : Int) ≤ max 0 (min 100 n) := by omega
      exact_mod_cast h'
  simp only [hhigh, hambiguous]
  by_cases h65 : 65 ≤ n
  · rw [if_pos h65, if_pos h65]
    rfl
  · rw [if_neg h65, if_neg h65]
    by_cases h30 : 30 ≤ n
    · rw [if_pos h30, if_pos h30]
      rfl
    · rw [if_neg h30, if_neg h30]
      rfl

/-- The term of the neighbours, in hundredths. -/
def neighbourCents (isProtected manufactured : Nat) : Int :=
  if 0 < isProtected then 80 else if 0 < manufactured then min 85 (65 + 4 * manufactured) else 0

theorem neighbourRisk_cents (isProtected manufactured : Nat) :
    (neighbourRisk isProtected manufactured).1 = neighbourCents isProtected manufactured / 100 := by
  unfold neighbourRisk neighbourCents
  split
  · norm_num
  · split
    · have hsum : (65 / 100 + 4 / 100 * manufactured : Rat) = (65 + 4 * manufactured) / 100 := by
        ring
      simp only [hsum]
      rw [min_div_div_right (by norm_num : (0 : Rat) ≤ 100)]
      push_cast
      rfl
    · norm_num

/-- The term of the context, in tenths. -/
theorem contextRisk_tenths (context : BreakContext) : ∃ c : Int, (contextRisk context).1 = c / 10 ∧
    -1 ≤ c ∧ c ≤ 1 ∧ (c = -1 ↔ context = .collect) := by
  cases context <;> simp only [contextRisk]
  case collect => exact ⟨-1, by norm_num, by decide⟩
  case travel => exact ⟨1, by norm_num, by decide⟩
  case collectApproach => exact ⟨1, by norm_num, by decide⟩
  case recovery => exact ⟨1, by norm_num, by decide⟩
  all_goals exact ⟨0, by norm_num, by decide⟩

/-- A number of twentieths. -/
def Twentieths (x : Rat) : Prop := ∃ k : Int, x = k / 20

theorem Twentieths.add {x y : Rat} (hx : Twentieths x) (hy : Twentieths y) :
    Twentieths (x + y) := by
  obtain ⟨k, rfl⟩ := hx
  obtain ⟨l, rfl⟩ := hy
  exact ⟨k + l, by push_cast; ring⟩

theorem Twentieths.ite {p : Prop} [Decidable p] {a b : Rat × List String} (ha : Twentieths a.1)
    (hb : Twentieths b.1) : Twentieths (if p then a else b).1 := by
  split
  · exact ha
  · exact hb

theorem Twentieths.none : Twentieths ((0, []) : Rat × List String).1 := ⟨0, by norm_num⟩

/-- The term of a log's shape. -/
theorem logRisk_twentieths (pos : Position) (blockType : String) (cells : Cells) :
    Twentieths (logRisk pos blockType cells).1 := by
  have hplus : ∀ signals : List String, Twentieths ((35 / 100, signals) : Rat × List String).1 :=
    fun _ => ⟨7, by norm_num⟩
  refine (((Twentieths.ite ?_ (.ite ?_ .none)).add (.ite ?_ .none)).add
    (.ite (hplus _) .none)).add (.ite (hplus _) .none)
  · exact ⟨-9, by norm_num⟩
  · exact ⟨-4, by norm_num⟩
  · exact ⟨-7, by norm_num⟩

/-- The term of another shape: one of four. -/
theorem regularSurfaceRisk_cents (pos : Position) (blockType : String) (cells : Cells) :
    ∃ n : Int, (regularSurfaceRisk pos blockType cells).1 = n / 100 ∧
      (n = 0 ∨ n = 20 ∨ n = 35 ∨ n = 55) := by
  unfold regularSurfaceRisk
  dsimp only
  split
  · exact ⟨55, by norm_num, by decide⟩
  · split
    · exact ⟨35, by norm_num, by decide⟩
    · split
      · exact ⟨20, by norm_num, by decide⟩
      · exact ⟨0, by norm_num, by decide⟩

/-! ## One block more -/

section OneBlock

variable {pos cell : Position} {blockType old new : String} {cells : Cells}

/-- Air, of any kind. -/
def airTypes : List String := ["air", "cave_air", "void_air"]

theorem endsWith_agree {text suffix suffix' : String} (h : endsWith text suffix = true)
    (h' : endsWith text suffix' = true) :
    endsWith suffix suffix' = true ∨ endsWith suffix' suffix = true := by
  have hsuffix := List.isSuffixOf_iff_suffix.mp h
  have hsuffix' := List.isSuffixOf_iff_suffix.mp h'
  rcases List.suffix_or_suffix_of_suffix hsuffix hsuffix' with hle | hle
  · exact .inr (List.isSuffixOf_iff_suffix.mpr hle)
  · exact .inl (List.isSuffixOf_iff_suffix.mpr hle)

/-- No manufactured block is part of a tree. -/
theorem isManufactured_not_tree (h : isManufactured new = true) :
    endsWith new "_log" = false ∧ endsWith new "_leaves" = false ∧ new ∉ rootTypes ∧
      new ∉ airTypes := by
  have hexact : ∀ name ∈ stronglyProtectedTypes ++ manufacturedExact,
      endsWith name "_log" = false ∧ endsWith name "_leaves" = false ∧ name ∉ rootTypes ∧
        name ∉ airTypes := by
    decide +kernel
  have hsuffixes : ∀ suffix ∈ manufacturedSuffixes, ∀ other ∈ ["_log", "_leaves"],
      endsWith suffix other = false ∧ endsWith other suffix = false := by
    decide +kernel
  have hnames : ∀ suffix ∈ manufacturedSuffixes, ∀ name ∈ rootTypes ++ airTypes,
      endsWith name suffix = false := by
    decide +kernel
  rcases of_decide_eq_true h with hname | hname | hsuffix
  · exact hexact new (List.mem_append_left _ hname)
  · exact hexact new (List.mem_append_right _ hname)
  · obtain ⟨suffix, hmem, hends⟩ := List.any_eq_true.mp hsuffix
    have hnot : ∀ other ∈ ["_log", "_leaves"], endsWith new other = false := by
      intro other hother
      refine Bool.eq_false_iff.mpr fun hother' => ?_
      obtain ⟨hleft, hright⟩ := hsuffixes suffix hmem other hother
      rcases endsWith_agree hends hother' with h | h
      · exact Bool.eq_false_iff.mp hleft h
      · exact Bool.eq_false_iff.mp hright h
    have hname : new ∉ rootTypes ++ airTypes := fun hname =>
      Bool.eq_false_iff.mp (hnames suffix hmem new hname) hends
    rw [List.mem_append, not_or] at hname
    exact ⟨hnot "_log" (by decide), hnot "_leaves" (by decide), hname⟩

theorem airTypes_plain (h : old ∈ airTypes) : isManufactured old = false ∧
    old ∉ stronglyProtectedTypes ∧ endsWith old "_log" = false ∧
      endsWith old "_leaves" = false ∧ old ∉ rootTypes := by
  have hall : ∀ old ∈ airTypes, isManufactured old = false ∧ old ∉ stronglyProtectedTypes ∧
      endsWith old "_log" = false ∧ endsWith old "_leaves" = false ∧ old ∉ rootTypes := by
    decide +kernel
  exact hall old h

variable (pos new) in
theorem assessmentCells_set {botPlacements : Option (Dict Position BotPlacement)}
    (hledger : ∀ value, botOwned botPlacements (cell, value) = false)
    (hold : cells.get? cell = some old) :
    assessmentCells pos (cells.set cell new) botPlacements
        = Dict.set (assessmentCells pos cells botPlacements) cell new ∧
      Dict.get? (assessmentCells pos cells botPlacements) cell = some old := by
  induction cells with
  | nil => cases hold
  | cons entry cells ih =>
      obtain ⟨key, value⟩ := entry
      rw [Dict.get?_cons] at hold
      by_cases hkey : key = cell
      · subst hkey
        rw [if_pos rfl] at hold
        obtain rfl := Option.some.inj hold
        simp [assessmentCells, Dict.set, Dict.get?, hledger]
      · rw [if_neg hkey] at hold
        obtain ⟨hset, hget⟩ := ih hold
        simp only [assessmentCells] at hset hget
        simp only [assessmentCells, Dict.set, if_neg hkey, List.map_cons, Dict.get?_cons]
        exact ⟨congrArg _ hset, hget⟩

/-- A block in the place of air does not change what a log is part of. -/
theorem logRisk_set (hlog : endsWith blockType "_log" = true) (hold : cells.get? cell = some old)
    (hair : old ∈ airTypes) (hnew : isManufactured new = true) :
    logRisk pos blockType (cells.set cell new) = logRisk pos blockType cells := by
  obtain ⟨hnewLog, hnewLeaves, hnewRoot, -⟩ := isManufactured_not_tree hnew
  obtain ⟨-, -, holdLog, holdLeaves, holdRoot⟩ := airTypes_plain hair
  have hread : ∀ p : Option String → Prop, (p (some new) ↔ p (some old)) → ∀ spot : Position,
      p ((cells.set cell new).get? spot) ↔ p (cells.get? spot) := by
    intro p hp spot
    rw [Dict.get?_set]
    split
    · next hat =>
        rw [hat, hold]
        exact hp
    · rfl
  have hsame : ∀ offsets, same pos blockType (cells.set cell new) offsets
      = same pos blockType cells offsets := by
    intro offsets
    refine List.countP_congr fun offset _ => ?_
    rw [decide_eq_true_eq, decide_eq_true_eq]
    refine hread (· = some blockType) ⟨fun h => ?_, fun h => ?_⟩ _
    · rw [Option.some.inj h, hlog] at hnewLog
      cases hnewLog
    · rw [Option.some.inj h, hlog] at holdLog
      cases holdLog
  have hroots : ([-3, -2, -1].any fun dy =>
        ((cells.set cell new).get? (offsetBy pos (0, dy, 0))).any (· ∈ rootTypes))
      = [-3, -2, -1].any fun dy => (cells.get? (offsetBy pos (0, dy, 0))).any (· ∈ rootTypes) := by
    congr 1
    funext dy
    rw [Bool.eq_iff_iff]
    exact hread (fun found => found.any (· ∈ rootTypes) = true) (by simp [hnewRoot, holdRoot]) _
  have hleaves : (cells.set cell new).countP (fun cell => endsWith cell.2 "_leaves")
      = cells.countP fun cell => endsWith cell.2 "_leaves" := by
    have hcount := Dict.countP_set new (fun cell => endsWith cell.2 "_leaves") hold
    simp only [hnewLeaves, holdLeaves] at hcount
    exact hcount
  simp only [logRisk, hsame, hroots, hleaves]

variable (new) in
theorem countNearby_set (p : String → Bool) (hcell : cell ≠ pos) (hold : cells.get? cell = some old)
    (hpold : p old = false) :
    countNearby pos (cells.set cell new) p = countNearby pos cells p + (p new).toNat := by
  have hcount := Dict.countP_set new (fun cell => decide (cell.1 ≠ pos ∧ p cell.2)) hold
  simpa [countNearby, hcell, hpold] using hcount

/-- The inputs where one functional or manufactured block more lowers the
level: a first functional block where five manufactured ones count more,
next to a log whose other terms come to -0.2 or -0.55; and a second
manufactured block, by which the target of a collect is no longer part of
any shape. -/
def Lowers (pos : Position) (blockType : String) (context : BreakContext) (cells : Cells)
    (cell : Position) (new : String) : Prop :=
  countNearby pos cells (· ∈ stronglyProtectedTypes) = 0 ∧
  if endsWith blockType "_log" then
    new ∈ stronglyProtectedTypes ∧ 5 ≤ countNearby pos cells isManufactured ∧
      ((logRisk pos blockType cells).1 + (contextRisk context).1 = -20 / 100 ∨
        (logRisk pos blockType cells).1 + (contextRisk context).1 = -55 / 100)
  else
    endsWith blockType "_ore" = false ∧ context = .collect ∧ new ∉ stronglyProtectedTypes ∧
      countNearby pos cells isManufactured = 1 ∧ 0 < (regularSurfaceRisk pos blockType cells).1 ∧
      (regularSurfaceRisk pos blockType (cells.set cell new)).1 = 0

/-- The rank of the level, from the counts and the terms. -/
theorem rank_classifyVoxels (context : BreakContext)
    (botPlacements : Option (Dict Position BotPlacement)) {s c : Int}
    (hs : (shapeRisk pos blockType (assessmentCells pos cells botPlacements)).1 = s / 100)
    (hc : (contextRisk context).1 = c / 10) :
    rank (classifyVoxels pos blockType context cells botPlacements).level =
      let total := neighbourCents
        (countNearby pos (assessmentCells pos cells botPlacements) (· ∈ stronglyProtectedTypes))
        (countNearby pos (assessmentCells pos cells botPlacements) isManufactured) + s + 10 * c
      if 65 ≤ total then 2 else if 30 ≤ total then 1 else 0 := by
  simp only [classifyVoxels, neighbourRisk_cents, hs, hc]
  rw [← rank_cents]
  congr 3
  push_cast
  ring

/-- A level does not go down by one block more exactly if the total does not
fall below a threshold it has reached. -/
theorem rank_le_iff {total total' : Int} :
    ((if 65 ≤ total then 2 else if 30 ≤ total then 1 else 0 : Nat) ≤
      if 65 ≤ total' then 2 else if 30 ≤ total' then 1 else 0) ↔
    ¬ (65 ≤ total ∧ total' < 65 ∨ 30 ≤ total ∧ total' < 30) := by
  split_ifs <;> omega

end OneBlock

section Totals

variable {isProtected manufactured one : Nat} {n n' c : Int}

/-- What the terms of the neighbours are, by what is there. -/
def NeighbourTerm (isProtected manufactured : Nat) (n : Int) : Prop :=
  0 < isProtected ∧ n = 80 ∨
  isProtected = 0 ∧ 0 < manufactured ∧ n = min 85 (65 + 4 * (manufactured : Int)) ∨
  isProtected = 0 ∧ manufactured = 0 ∧ n = 0

theorem neighbourTerm_cents (isProtected manufactured : Nat) :
    NeighbourTerm isProtected manufactured (neighbourCents isProtected manufactured) := by
  unfold NeighbourTerm neighbourCents
  split_ifs with hprotected hmanufactured
  · exact .inl ⟨hprotected, rfl⟩
  · exact .inr (.inl ⟨by omega, hmanufactured, rfl⟩)
  · exact .inr (.inr ⟨by omega, by omega, rfl⟩)

/-- Where the shape stays, in twentieths, only a first functional block
among five manufactured ones can lower a total below a threshold. -/
theorem totals_sameShape (hone : one ≤ 1) (hbefore : NeighbourTerm isProtected manufactured n)
    (hafter : NeighbourTerm (isProtected + one) (manufactured + 1) n') (k : Int) :
    (65 ≤ n + 5 * k + 10 * c ∧ n' + 5 * k + 10 * c < 65 ∨
      30 ≤ n + 5 * k + 10 * c ∧ n' + 5 * k + 10 * c < 30) ↔
    isProtected = 0 ∧ one = 1 ∧ 5 ≤ manufactured ∧ (k + 2 * c = -4 ∨ k + 2 * c = -11) := by
  unfold NeighbourTerm at hbefore hafter
  rcases hbefore with ⟨hp, rfl⟩ | ⟨rfl, hm, rfl⟩ | ⟨rfl, rfl, rfl⟩
  · -- eighty before and after
    rcases hafter with ⟨-, rfl⟩ | ⟨hno, -⟩ | ⟨hno, -⟩
    · omega
    · omega
    · omega
  · rcases hafter with ⟨hp, rfl⟩ | ⟨hno, -, rfl⟩ | ⟨-, hno, -⟩
    · omega
    · omega
    · omega
  · rcases hafter with ⟨hp, rfl⟩ | ⟨hno, -, rfl⟩ | ⟨-, hno, -⟩
    · omega
    · omega
    · omega

/-- Where the shape may change, only a second manufactured block can, by
which a target of a collect is part of no shape any more. -/
theorem totals_surface (hone : one ≤ 1) (hbefore : NeighbourTerm isProtected manufactured n)
    (hafter : NeighbourTerm (isProtected + one) (manufactured + 1) n') (hlow : -1 ≤ c)
    (hhigh : c ≤ 1) {s s' : Int} (hs : s = 0 ∨ s = 20 ∨ s = 35 ∨ s = 55)
    (hs' : s' = 0 ∨ s' = 20 ∨ s' = 35 ∨ s' = 55) :
    (65 ≤ n + s + 10 * c ∧ n' + s' + 10 * c < 65 ∨ 30 ≤ n + s + 10 * c ∧ n' + s' + 10 * c < 30) ↔
    isProtected = 0 ∧ c = -1 ∧ one = 0 ∧ manufactured = 1 ∧ 0 < s ∧ s' = 0 := by
  unfold NeighbourTerm at hbefore hafter
  rcases hbefore with ⟨hp, rfl⟩ | ⟨rfl, hm, rfl⟩ | ⟨rfl, rfl, rfl⟩
  · rcases hafter with ⟨-, rfl⟩ | ⟨hno, -⟩ | ⟨hno, -⟩
    · omega
    · omega
    · omega
  · rcases hafter with ⟨hp, rfl⟩ | ⟨hno, -, rfl⟩ | ⟨-, hno, -⟩
    · omega
    · omega
    · omega
  · rcases hafter with ⟨hp, rfl⟩ | ⟨hno, -, rfl⟩ | ⟨-, hno, -⟩
    · omega
    · omega
    · omega

end Totals

theorem twentieths_tenths (k c m : Int) {x : Rat} (hx : x = (5 * m : Int) / 100) :
    (k : Rat) / 20 + (c : Rat) / 10 = x ↔ k + 2 * c = m := by
  rw [hx]
  constructor
  · intro h
    have hcast : ((k + 2 * c : Int) : Rat) = (m : Int) := by
      push_cast at h ⊢
      linarith
    exact_mod_cast hcast
  · rintro rfl
    push_cast
    ring

/-- A functional or manufactured block in the place of air, where the
ledger has nothing, does not lower the level, but for the inputs of
`Lowers`. -/
theorem risk_monotone (pos cell : Position) (blockType : String) (context : BreakContext)
    (cells : Cells) (botPlacements : Option (Dict Position BotPlacement)) (old new : String)
    (hcell : cell ≠ pos) (hold : cells.get? cell = some old) (hair : old ∈ airTypes)
    (hnew : new ∈ stronglyProtectedTypes ∨ isManufactured new = true)
    (hledger : ∀ placements, botPlacements = some placements → placements.get? cell = none) :
    rank (classifyVoxels pos blockType context cells botPlacements).level
        ≤ rank (classifyVoxels pos blockType context (cells.set cell new) botPlacements).level ↔
      ¬ Lowers pos blockType context (assessmentCells pos cells botPlacements) cell new := by
  have hmade : isManufactured new = true := by
    rcases hnew with hprotected | hmade
    · exact decide_eq_true (.inl hprotected)
    · exact hmade
  obtain ⟨hplain, hplain', -⟩ := airTypes_plain hair
  have hfree : ∀ value, botOwned botPlacements (cell, value) = false := by
    intro value
    cases botPlacements with
    | none => rfl
    | some placements => simp [botOwned, hledger placements rfl]
  obtain ⟨hset, hget⟩ := assessmentCells_set pos new hfree hold
  obtain ⟨c, hc, hlow, hhigh, hcollect⟩ := contextRisk_tenths context
  -- one more of each kind
  have hprotected := countNearby_set new (· ∈ stronglyProtectedTypes) hcell hget
    (decide_eq_false hplain')
  have hmanufactured := countNearby_set new isManufactured hcell hget hplain
  rw [hmade] at hmanufactured
  unfold Lowers
  generalize hcells : assessmentCells pos cells botPlacements = assessed at *
  obtain ⟨one, hone, hmem⟩ : ∃ one, (decide (new ∈ stronglyProtectedTypes)).toNat = one ∧
      (new ∈ stronglyProtectedTypes ↔ one = 1) ∧ one ≤ 1 := by
    by_cases h : new ∈ stronglyProtectedTypes
    · exact ⟨1, by rw [decide_eq_true h]; rfl, by simp [h]⟩
    · exact ⟨0, by rw [decide_eq_false h]; rfl, by simp [h]⟩
  obtain ⟨hmem, hle⟩ := hmem
  rw [hone] at hprotected
  rw [Bool.toNat_true] at hmanufactured
  have hbefore := neighbourTerm_cents (countNearby pos assessed (· ∈ stronglyProtectedTypes))
    (countNearby pos assessed isManufactured)
  have hafter := neighbourTerm_cents
    (countNearby pos (assessed.set cell new) (· ∈ stronglyProtectedTypes))
    (countNearby pos (assessed.set cell new) isManufactured)
  rw [hprotected, hmanufactured] at hafter
  have hlevels : ∀ s s' : Int, (shapeRisk pos blockType assessed).1 = s / 100 →
      (shapeRisk pos blockType (assessed.set cell new)).1 = s' / 100 → _ :=
    fun s s' hs hs' => by
      have hrank := rank_classifyVoxels context botPlacements (hcells ▸ hs) hc
      have hrank' := rank_classifyVoxels context botPlacements
        (show _ = (s' : Rat) / 100 by rw [hset]; exact hs') hc
      rw [hset, hprotected, hmanufactured] at hrank'
      rw [hcells] at hrank
      exact (iff_of_eq (congrArg₂ _ hrank hrank')).trans rank_le_iff
  by_cases hlog : endsWith blockType "_log" = true
  · -- a log: the shape is what it was
    obtain ⟨k, hk⟩ := logRisk_twentieths pos blockType assessed
    have hshape : (shapeRisk pos blockType assessed).1 = ((5 * k : Int) : Rat) / 100 := by
      rw [shapeRisk, if_pos hlog, hk]
      push_cast
      ring
    have hshape' : (shapeRisk pos blockType (assessed.set cell new)).1
        = ((5 * k : Int) : Rat) / 100 := by
      rw [shapeRisk, if_pos hlog, logRisk_set hlog hget hair hmade, hk]
      push_cast
      ring
    rw [hlevels _ _ hshape hshape', totals_sameShape hle hbefore hafter k, if_pos hlog, hk, hc,
      hmem, twentieths_tenths k c (-4) (by norm_num), twentieths_tenths k c (-11) (by norm_num)]
  · rw [if_neg hlog]
    by_cases hore : endsWith blockType "_ore" = true
    · -- an ore has no shape
      have hshape : ∀ cells : Cells, (shapeRisk pos blockType cells).1
          = ((5 * (-7) : Int) : Rat) / 100 := by
        intro cells
        rw [shapeRisk, if_neg hlog, if_pos hore]
        norm_num
      rw [hlevels _ _ (hshape _) (hshape _), totals_sameShape hle hbefore hafter (-7), hore]
      constructor
      · rintro - ⟨-, hfalse, -⟩
        cases hfalse
      · rintro - ⟨-, -, -, hsum⟩
        omega
    · obtain ⟨s, hs, hvalues⟩ := regularSurfaceRisk_cents pos blockType assessed
      obtain ⟨s', hs', hvalues'⟩ := regularSurfaceRisk_cents pos blockType (assessed.set cell new)
      have hshape : ∀ cells : Cells, (shapeRisk pos blockType cells).1
          = (regularSurfaceRisk pos blockType cells).1 := by
        intro cells
        rw [shapeRisk, if_neg hlog, if_neg hore]
      have hpos : 0 < (s : Rat) / 100 ↔ 0 < s := by
        rw [div_pos_iff_of_pos_right (by norm_num), Int.cast_pos]
      have hzero : (s' : Rat) / 100 = 0 ↔ s' = 0 := by
        rw [div_eq_zero_iff, Int.cast_eq_zero]
        norm_num
      rw [hlevels s s' ((hshape _).trans hs) ((hshape _).trans hs'),
        totals_surface hle hbefore hafter hlow hhigh hvalues hvalues', hs, hs', hpos, hzero, hmem,
        ← hcollect]
      have hnone : one = 0 ↔ ¬ one = 1 := by omega
      simp only [Bool.not_eq_true] at hore
      rw [hnone]
      simp only [hore, true_and]

/-! ## Two windows -/

/-- The window around the origin that holds these blocks, and air. -/
def windowOf (blocks : List (Position × String)) : Cells :=
  (samplePositions (0, 0, 0)).map fun pos => (pos, (Dict.get? blocks pos).getD "air")

/-- A log on top of two others, next to a wall of five planks. -/
def postAndWall : Cells :=
  windowOf [((0, 0, 0), "oak_log"), ((0, -1, 0), "oak_log"), ((0, -2, 0), "oak_log"),
    ((1, -1, 0), "oak_planks"), ((1, 0, 0), "oak_planks"), ((1, 1, 0), "oak_planks"),
    ((1, 0, -1), "oak_planks"), ((1, 0, 1), "oak_planks")]

/-- A column of four stones, with a block of planks beside it. -/
def markedColumn : Cells :=
  windowOf [((0, 0, 0), "stone"), ((0, -1, 0), "stone"), ((0, -2, 0), "stone"),
    ((0, 1, 0), "stone"), ((-1, 0, 0), "oak_planks")]

/-- Planks in place of air do not lower the level of the log. -/
theorem risk_monotone_planks :
    rank (classifyVoxels (0, 0, 0) "oak_log" .direct postAndWall none).level
      ≤ rank (classifyVoxels (0, 0, 0) "oak_log" .direct
          (postAndWall.set (-1, 0, 0) "oak_planks") none).level := by
  have hiff := risk_monotone (0, 0, 0) (-1, 0, 0) "oak_log" .direct postAndWall none "air"
    "oak_planks" (by decide) (by decide +kernel) (by decide) (.inr (by decide +kernel))
    (fun _ h => nomatch h)
  refine hiff.mpr ?_
  rintro ⟨-, hlowers⟩
  rw [if_pos (by decide +kernel)] at hlowers
  exact absurd hlowers.1 (by decide)

/-- A chest in place of the same air lowers the level of the log, and a
second block of planks that of the column when it is collected. -/
theorem risk_not_monotone :
    (∃ (cells : Cells) (cell : Position), cells.map Prod.fst = samplePositions (0, 0, 0) ∧
      cell ≠ (0, 0, 0) ∧ cells.get? cell = some "air" ∧ "chest" ∈ stronglyProtectedTypes ∧
      (classifyVoxels (0, 0, 0) "oak_log" .direct cells none).level = .high ∧
      (classifyVoxels (0, 0, 0) "oak_log" .direct (cells.set cell "chest") none).level
        = .ambiguous) ∧
    ∃ (cells : Cells) (cell : Position), cells.map Prod.fst = samplePositions (0, 0, 0) ∧
      cell ≠ (0, 0, 0) ∧ cells.get? cell = some "air" ∧ isManufactured "oak_planks" = true ∧
      (classifyVoxels (0, 0, 0) "stone" .collect cells none).level = .high ∧
      (classifyVoxels (0, 0, 0) "stone" .collect (cells.set cell "oak_planks") none).level
        = .ambiguous :=
  ⟨⟨postAndWall, (-1, 0, 0), by decide +kernel⟩, markedColumn, (1, 0, 0), by decide +kernel⟩

end StructureRisk

end MineBot
