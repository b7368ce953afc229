import MineBot.PathTrail

/-!
# Where the search stands the bot

A step of the search leaves the bot in a loaded, walkable cell exactly when
it is *sound*: it does not dig down, for the dug cell stays solid in the
overlay; it does not place a block into the bot's own cell; and if it leaves
the bot where it is, then the bot stood there before or the step clears the
cell. On a trail of sound steps no cell is broken twice unless a block was
placed there in between.
-/

namespace MineBot

/-! ## What a step writes -/

/-- The lower half of the door that an `OPEN` step opens. -/
def PathStep.lowerHalf {κ : Type} (step : PathStep κ) : Position :=
  step.interactionTarget.getD step.pos

/-- The step makes the cell walkable. -/
def PathStep.clears {κ : Type} (step : PathStep κ) (pos : Position) : Prop :=
  match step.move with
  | .break => step.pos = pos
  | .open => step.pos = pos ∨
      isDoorType step.blockType = true ∧ (step.lowerHalf = pos ∨ step.lowerHalf.up = pos)
  | _ => False

/-- The step puts a block into the cell. -/
def PathStep.fills {κ : Type} (step : PathStep κ) (pos : Position) : Prop :=
  step.move = .place ∧ step.pos = pos

/-- Walkable, and no liquid. -/
def GridCell.Clear (cell : GridCell) : Prop := cell.walkable = true ∧ cell.liquid = false

/-- A block: neither walkable nor liquid. -/
def GridCell.Solid (cell : GridCell) : Prop := cell.walkable = false ∧ cell.liquid = false

section Writes

variable {world : GridWorld} {overlay : VirtualBlockOverlay} {pos : Position}
variable {κ : Type} {step : PathStep κ}

/-- An opened passage is clear, and everything else is as it was. -/
theorem cellAt_opened (hmove : step.move = .open) :
    (step.clears pos → ∃ cell, (overlay.opened step.pos step.blockType step.openHeadroomBlock
        step.interactionTarget).cellAt world pos = some cell ∧ cell.Clear) ∧
      (¬ step.clears pos → (overlay.opened step.pos step.blockType step.openHeadroomBlock
        step.interactionTarget).cellAt world pos = overlay.cellAt world pos) := by
  simp only [PathStep.clears, hmove, VirtualBlockOverlay.opened]
  by_cases hdoor : isDoorType step.blockType = true
  · simp only [hdoor, if_true, true_and, VirtualBlockOverlay.cellAt_setCell]
    by_cases hupper : step.lowerHalf.up = pos
    · exact ⟨fun _ => ⟨_, if_pos hupper, rfl, rfl⟩, fun h => absurd (.inr (.inr hupper)) h⟩
    · by_cases hlower : step.lowerHalf = pos
      · exact ⟨fun _ => ⟨_, (if_neg hupper).trans (if_pos hlower), rfl, rfl⟩,
          fun h => absurd (.inr (.inl hlower)) h⟩
      · by_cases hpos : step.pos = pos
        · exact ⟨fun _ => ⟨_, (if_neg hupper).trans ((if_neg hlower).trans (if_pos hpos)), rfl, rfl⟩,
            fun h => absurd (.inl hpos) h⟩
        · refine ⟨fun h => ?_, fun _ => (if_neg hupper).trans ((if_neg hlower).trans (if_neg hpos))⟩
          obtain h | h | h := h
          · exact absurd h hpos
          · exact absurd h hlower
          · exact absurd h hupper
  · simp only [if_neg hdoor, VirtualBlockOverlay.cellAt_setCell]
    by_cases hpos : step.pos = pos
    · exact ⟨fun _ => ⟨_, if_pos hpos, rfl, rfl⟩, fun h => absurd (.inl hpos) h⟩
    · refine ⟨fun h => ?_, fun _ => if_neg hpos⟩
      obtain h | h := h
      · exact absurd h hpos
      · exact absurd h.1 hdoor

variable (world overlay) in
theorem cellAt_afterStep_clears (h : step.clears pos) :
    ∃ cell, (overlay.afterStep step).cellAt world pos = some cell ∧ cell.Clear := by
  cases hmove : step.move with
  | «break» =>
      simp only [PathStep.clears, hmove] at h
      simp only [VirtualBlockOverlay.afterStep, hmove, VirtualBlockOverlay.cellAt_setCell, if_pos h]
      exact ⟨airCell, rfl, rfl, rfl⟩
  | «open» =>
      simp only [VirtualBlockOverlay.afterStep, hmove]
      exact (cellAt_opened hmove).1 h
  | _ => simp only [PathStep.clears, hmove] at h

variable (world overlay) in
theorem cellAt_afterStep_fills (h : step.fills pos) :
    (overlay.afterStep step).cellAt world pos
      = some { blockType := step.blockType, walkable := false } := by
  simp only [VirtualBlockOverlay.afterStep, h.1, VirtualBlockOverlay.cellAt_setCell, if_pos h.2]

variable (world overlay) in
theorem cellAt_afterStep_of_not (hclears : ¬ step.clears pos) (hfills : ¬ step.fills pos) :
    (overlay.afterStep step).cellAt world pos = overlay.cellAt world pos := by
  cases hmove : step.move with
  | «break» =>
      simp only [PathStep.clears, hmove] at hclears
      simp only [VirtualBlockOverlay.afterStep, hmove, VirtualBlockOverlay.cellAt_setCell,
        if_neg hclears]
  | place =>
      have hne : step.pos ≠ pos := fun h => hfills ⟨hmove, h⟩
      simp only [VirtualBlockOverlay.afterStep, hmove, VirtualBlockOverlay.cellAt_setCell,
        if_neg hne]
  | «open» =>
      simp only [VirtualBlockOverlay.afterStep, hmove]
      exact (cellAt_opened hmove).2 hclears
  | _ => simp only [VirtualBlockOverlay.afterStep, hmove]

/-- The step as the planner's overlay has it: what it places is cobblestone,
whatever the step says it found there. -/
def PathStep.planned (step : PathStep κ) : PathStep κ :=
  if step.move = .place then { step with blockType := "cobblestone" } else step

theorem PathStep.planned_move : step.planned.move = step.move := by
  unfold PathStep.planned
  split <;> rfl

theorem PathStep.planned_pos : step.planned.pos = step.pos := by
  unfold PathStep.planned
  split <;> rfl

theorem PathStep.planned_of_ne (h : step.move ≠ .place) : step.planned = step := if_neg h

theorem PathStep.clears_planned : step.planned.clears pos ↔ step.clears pos := by
  by_cases h : step.move = .place
  · simp [PathStep.clears, PathStep.planned_move, h]
  · rw [PathStep.planned_of_ne h]

theorem PathStep.fills_planned : step.planned.fills pos ↔ step.fills pos := by
  simp only [PathStep.fills, PathStep.planned_move, PathStep.planned_pos]

end Writes

/-- The cell the bot is in is loaded and walkable. -/
def Standing (world : GridWorld) (s : SearchState) : Prop :=
  ∃ cell, s.overlay.cellAt world s.pos = some cell ∧ cell.walkable = true

/-- The step keeps the bot out of blocks. -/
structure Move.Sound {κ : Type} (world : GridWorld) (m : Move κ) : Prop where
  not_downward : m.step.move ≠ .downward
  not_filled : ¬ m.step.fills m.before.pos
  stays : m.after.pos = m.before.pos → m.step.clears m.before.pos ∨ Standing world m.before

section Standing

variable {γ κ : Type} {world : GridWorld} {legality : Legality γ} {num : CostNumbers κ}
variable {context : BreakContext} {ok : γ → Prop} {s t : SearchState} {step : PathStep κ}

/-- The overlay of the next state is the effect of the step. -/
theorem StepsTo.overlay_eq (h : StepsTo world legality num context ok s step t) :
    t.overlay = s.overlay.afterStep step.planned := by
  cases h with
  | enter kind =>
      cases hmove : step.move <;> simp [hmove, MoveKind.enters] at kind <;>
        simp [VirtualBlockOverlay.afterStep, PathStep.planned_move, hmove]
  | dig kind => simp [VirtualBlockOverlay.afterStep, PathStep.planned_move, kind]
  | breakInto kind =>
      simp [VirtualBlockOverlay.afterStep, PathStep.planned_move, PathStep.planned_pos, kind]
  | breakAbove kind =>
      simp [VirtualBlockOverlay.afterStep, PathStep.planned_move, PathStep.planned_pos, kind]
  | place kind =>
      simp [VirtualBlockOverlay.afterStep, PathStep.planned, kind]
  | «open» kind =>
      rw [PathStep.planned_of_ne (by rw [kind]; decide)]
      simp only [VirtualBlockOverlay.afterStep, kind]

theorem neighbors_ne {pos p : Position} (h : p ∈ neighbors pos) : p ≠ pos := by
  obtain ⟨x, y, z⟩ := pos
  rintro rfl
  simp [neighbors] at h
  omega

/-- A step moves the bot into the cell it is about, or leaves it where it was. -/
theorem StepsTo.pos_eq (h : StepsTo world legality num context ok s step t) :
    t.pos = step.pos ∧ t.pos ≠ s.pos ∨ t.pos = s.pos := by
  cases h with
  | enter _ near => exact .inl ⟨rfl, neighbors_ne near⟩
  | dig _ below => exact .inl ⟨rfl, by rw [below]; exact s.pos.down_ne⟩
  | breakInto _ near => exact .inl ⟨rfl, neighbors_ne near⟩
  | breakAbove => exact .inr rfl
  | place => exact .inr rfl
  | «open» => exact .inr rfl

theorem standing_congr (h : t.overlay.cellAt world t.pos = s.overlay.cellAt world s.pos) :
    Standing world t ↔ Standing world s := by
  rw [Standing, Standing, h]

/-- A step that leaves the bot where it is. -/
theorem StepsTo.standing_stays (h : StepsTo world legality num context ok s step t)
    (hpos : t.pos = s.pos) :
    Standing world t ↔
      ¬ step.fills s.pos ∧ (step.clears s.pos ∨ Standing world s) := by
  by_cases hfills : step.fills s.pos
  · have hcell := cellAt_afterStep_fills world s.overlay (PathStep.fills_planned.mpr hfills)
    rw [← h.overlay_eq, ← hpos] at hcell
    constructor
    · rintro ⟨cell, hat, hwalk⟩
      rw [hcell] at hat
      rw [← Option.some.inj hat] at hwalk
      cases hwalk
    · exact fun hnot => absurd hfills hnot.1
  · by_cases hclears : step.clears s.pos
    · obtain ⟨cell, hcell, hclear⟩ := cellAt_afterStep_clears world s.overlay
        (PathStep.clears_planned.mpr hclears)
      rw [← h.overlay_eq, ← hpos] at hcell
      exact ⟨fun _ => ⟨hfills, .inl hclears⟩, fun _ => ⟨cell, hcell, hclear.1⟩⟩
    · have hcell := cellAt_afterStep_of_not world s.overlay
        (mt PathStep.clears_planned.mp hclears) (mt PathStep.fills_planned.mp hfills)
      rw [← h.overlay_eq] at hcell
      have hcongr : Standing world t ↔ Standing world s :=
        standing_congr (by rw [hpos]; exact hcell)
      rw [hcongr]
      exact ⟨fun hs => ⟨hfills, .inr hs⟩, fun hnot => hnot.2.resolve_left hclears⟩

/-- The step lemma: a step leaves the bot standing exactly when it is sound. -/
theorem StepsTo.standing_iff {m : Move κ}
    (h : StepsTo world legality num context ok m.before m.step m.after) :
    Standing world m.after ↔ m.Sound world := by
  obtain ⟨before, step, after⟩ := m
  replace h : StepsTo world legality num context ok before step after := h
  have hstays : after.pos = before.pos → step.move ≠ .downward →
      (Standing world after ↔ Move.Sound world ⟨before, step, after⟩) := by
    intro hpos hmove
    rw [h.standing_stays hpos]
    exact ⟨fun hs => ⟨hmove, hs.1, fun _ => hs.2⟩, fun hs => ⟨hs.not_filled, hs.stays hpos⟩⟩
  cases h with
  | enter kind near loaded walkable =>
      have hsound : Move.Sound world ⟨before, step, ⟨step.pos, before.overlay⟩⟩ := by
        refine ⟨fun hmove => ?_, fun hfills => ?_, fun hpos => absurd hpos (neighbors_ne near)⟩
        · rw [hmove] at kind
          cases kind
        · rw [hfills.1] at kind
          cases kind
      exact iff_of_true ⟨_, loaded, walkable⟩ hsound
  | dig kind below loaded solid =>
      refine iff_of_false ?_ fun hs => hs.not_downward kind
      rintro ⟨cell, hcell, hwalk⟩
      rw [loaded] at hcell
      rw [← Option.some.inj hcell, solid] at hwalk
      cases hwalk
  | breakInto kind near =>
      have hsound : Move.Sound world ⟨before, step,
          ⟨step.pos, before.overlay.setCell step.pos airCell⟩⟩ := by
        refine ⟨fun hmove => ?_, fun hfills => ?_, fun hpos => absurd hpos (neighbors_ne near)⟩
        · exact absurd (kind.symm.trans hmove) (by decide)
        · exact absurd (kind.symm.trans hfills.1) (by decide)
      refine iff_of_true ⟨airCell, ?_, rfl⟩ hsound
      rw [VirtualBlockOverlay.cellAt_setCell, if_pos rfl]
  | breakAbove kind => exact hstays rfl (by rw [kind]; decide)
  | place kind => exact hstays rfl (by rw [kind]; decide)
  | «open» kind => exact hstays rfl (by rw [kind]; decide)

/-- The run lemma: along a trail the bot stands after every step exactly when
every step is sound. -/
theorem Trail.standing_iff {moves : List (Move κ)}
    (h : Trail world legality num context ok s moves t) :
    (∀ m ∈ moves, Standing world m.after) ↔ ∀ m ∈ moves, m.Sound world := by
  have hsteps : ∀ m ∈ moves, StepsTo world legality num context ok m.before m.step m.after :=
    fun m hm => h.steps hm
  exact forall₂_congr fun m hm => (hsteps m hm).standing_iff

/-! ## Cells that are removed twice -/

/-- The step takes the block at its position away. -/
def PathStep.removes (step : PathStep κ) : Prop := step.move = .break ∨ step.move = .downward

/-- No cell is broken again that an earlier step took away, unless a block was
placed there in between. -/
def NoRebreak (path : List (PathStep κ)) : Prop :=
  ∀ front between back (first again : PathStep κ),
    path = front ++ first :: between ++ again :: back →
    first.removes → again.move = .break → again.pos = first.pos →
      ∃ step ∈ between, step.move = .place ∧ step.pos = first.pos

theorem StepsTo.keeps_clear {pos : Position}
    (h : StepsTo world legality num context ok s step t) (hfills : ¬ step.fills pos)
    (hs : ∃ cell, s.overlay.cellAt world pos = some cell ∧ cell.Clear) :
    ∃ cell, t.overlay.cellAt world pos = some cell ∧ cell.Clear := by
  rw [h.overlay_eq]
  by_cases hclears : step.clears pos
  · exact cellAt_afterStep_clears world s.overlay (PathStep.clears_planned.mpr hclears)
  · rw [cellAt_afterStep_of_not world s.overlay (mt PathStep.clears_planned.mp hclears)
      (mt PathStep.fills_planned.mp hfills)]
    exact hs

/-- A cell that is broken was not clear. -/
theorem StepsTo.not_clear_of_break (h : StepsTo world legality num context ok s step t)
    (hmove : step.move = .break) {cell : GridCell}
    (hcell : s.overlay.cellAt world step.pos = some cell) : ¬ cell.Clear := by
  rintro ⟨hwalk, hliquid⟩
  cases h with
  | breakInto _ _ loaded solid =>
      rw [hcell] at loaded
      rw [← Option.some.inj loaded, hwalk] at solid
      cases solid
  | breakAbove _ _ _ blocked =>
      have hup := blockedHeadroom_pos blocked
      rw [hup] at hcell
      simp [blockedHeadroom, hcell, hwalk, hliquid] at blocked
  | enter kind =>
      rw [hmove] at kind
      cases kind
  | dig kind => exact absurd (hmove.symm.trans kind) (by decide)
  | place kind => exact absurd (hmove.symm.trans kind) (by decide)
  | «open» kind => exact absurd (hmove.symm.trans kind) (by decide)

theorem Trail.noRebreak {moves : List (Move κ)}
    (h : Trail world legality num context ok s moves t)
    (hdown : ∀ m ∈ moves, m.step.move ≠ .downward) : NoRebreak (moves.map (·.step)) := by
  intro front between back first again hpath hremoves hagain hpos
  obtain ⟨upTo, rest, rfl, hupTo, hrest⟩ := List.map_eq_append_iff.mp hpath
  obtain ⟨before, middle, rfl, rfl, hmiddle⟩ := List.map_eq_append_iff.mp hupTo
  obtain ⟨m, moves, rfl, rfl, rfl⟩ := List.map_eq_cons_iff.mp hmiddle
  obtain ⟨m', moves', rfl, rfl, rfl⟩ := List.map_eq_cons_iff.mp hrest
  obtain ⟨u, hfirst, hsecond⟩ := h.split
  obtain ⟨v, -, hbreak, hstep, hmoves⟩ := hfirst.split
  have hmove : m.step.move = .break := hremoves.resolve_right (hdown m (by simp))
  -- the broken cell stays clear as long as nothing is placed there
  by_contra hplaced
  have hnever : ∀ n ∈ moves, ¬ n.step.fills m.step.pos := fun n hn hfills =>
    hplaced ⟨n.step, List.mem_map_of_mem hn, hfills.1, hfills.2⟩
  have hclears : m.step.clears m.step.pos := by
    simp only [PathStep.clears, hmove]
  have hfresh : ∃ cell, m.after.overlay.cellAt world m.step.pos = some cell ∧ cell.Clear := by
    rw [hstep.overlay_eq]
    exact cellAt_afterStep_clears world v.overlay (PathStep.clears_planned.mpr hclears)
  obtain ⟨cell, hcell, hclear⟩ := Trail.invariant
    (P := fun s => ∃ cell, s.overlay.cellAt world m.step.pos = some cell ∧ cell.Clear)
    hmoves (fun n hn hsteps hs => hsteps.keeps_clear (hnever n hn) hs) hfresh
  obtain ⟨-, hlast, -⟩ := hsecond
  exact hlast.not_clear_of_break hagain (hpos ▸ hcell) hclear

/-! ## The search and its result -/

variable [LinearOrder κ]

/-- Every state the search reaches lies at the end of a trail, and every path
`plan` returns is the steps of one. On a trail of sound steps the bot stands
wherever it gets to, and no cell is broken twice. -/
theorem plan_standing (world : GridWorld) (legality : Legality γ) (num : CostNumbers κ)
    (goal : NavigationGoal) (params : PlanParams κ) (start : Position) (g : γ) :
    (∀ s, (explored world legality num goal params start g).Reached s →
      (∃ moves, Trail world legality num params.breakContext (fun _ => True) ⟨start, ⟨[]⟩⟩
        moves s) ∧
      ∀ moves : List (Move κ),
        Trail world legality num params.breakContext (fun _ => True) ⟨start, ⟨[]⟩⟩ moves s →
        ((∀ m ∈ moves, Standing world m.after) ↔ ∀ m ∈ moves, m.Sound world) ∧
        ((∀ m ∈ moves, m.Sound world) → s = ⟨start, ⟨[]⟩⟩ ∨ Standing world s)) ∧
    ∀ result g', plan world legality num goal params start g = .ok (some result, g') →
      ∃ moves s, Trail world legality num params.breakContext (fun _ => True) ⟨start, ⟨[]⟩⟩
          moves s ∧
        result.path = moves.map (·.step) ∧
        ((∀ m ∈ moves, m.Sound world) → NoRebreak result.path) := by
  have hkeeps : legality.Keeps fun _ => True := ⟨fun _ => trivial, fun _ => trivial⟩
  constructor
  · intro s hs
    refine ⟨explored_trails goal hkeeps trivial hs, fun moves htrail => ?_⟩
    refine ⟨htrail.standing_iff, fun hsound => ?_⟩
    obtain rfl | ⟨m, hm, rfl⟩ := htrail.last
    · exact .inl rfl
    · exact .inr (htrail.standing_iff.mpr hsound m hm)
  · intro result g' hplan
    obtain ⟨-, -, moves, s, htrail, hpath⟩ := plan_trail goal hkeeps trivial hplan
    refine ⟨moves, s, htrail, hpath, fun hsound => ?_⟩
    rw [hpath]
    exact htrail.noRebreak fun m hm => (hsound m hm).not_downward

end Standing

/-! ## A shaft and a corridor -/

/-- Two cells the bot can walk. -/
def corridor : GridWorld := [((0, 64, 0), {}), ((1, 64, 0), {})]

theorem plan_standing_corridor :
    (explored corridor exactLegality .exact (.block (1, 64, 0)) exactParams (0, 64, 0)
      (naturalPolicy, 0)).Reached ⟨(1, 64, 0), ⟨[]⟩⟩ ∧
    ∃ moves : List (Move (WithTop ℚ)), Trail corridor exactLegality .exact .travel (fun _ => True)
      ⟨(0, 64, 0), ⟨[]⟩⟩ moves ⟨(1, 64, 0), ⟨[]⟩⟩ := by
  have hreached : (explored corridor exactLegality .exact (.block (1, 64, 0)) exactParams (0, 64, 0)
      (naturalPolicy, 0)).Reached ⟨(1, 64, 0), ⟨[]⟩⟩ := by
    unfold PlanState.Reached
    decide +kernel
  exact ⟨hreached, ((plan_standing corridor exactLegality .exact (.block (1, 64, 0)) exactParams
    (0, 64, 0) (naturalPolicy, 0)).1 _ hreached).1⟩

/-- A column of stone under the bot. -/
def shaft : GridWorld :=
  [((0, 64, 0), {}), ((0, 63, 0), { blockType := "stone", walkable := false }),
   ((0, 62, 0), { blockType := "stone", walkable := false })]

/-- Digging down two cells: the search stands the bot inside the upper one,
and the path breaks that one again after it was dug. -/
theorem shaft_rebreaks :
    (explored shaft exactLegality .exact (.block (0, 62, 0)) exactParams (0, 64, 0)
        (naturalPolicy, 0)).Reached ⟨(0, 63, 0), ⟨[]⟩⟩ ∧
      ¬ Standing shaft ⟨(0, 63, 0), ⟨[]⟩⟩ ∧
      pathOf (planExact shaft naturalPolicy (0, 64, 0) (0, 62, 0))
        = some [(.downward, (0, 63, 0)), (.break, (0, 63, 0)), (.downward, (0, 62, 0))] ∧
      ∀ result g, planExact shaft naturalPolicy (0, 64, 0) (0, 62, 0) = .ok (some result, g) →
        ¬ NoRebreak result.path := by
  have hpath : pathOf (planExact shaft naturalPolicy (0, 64, 0) (0, 62, 0))
      = some [(.downward, (0, 63, 0)), (.break, (0, 63, 0)), (.downward, (0, 62, 0))] := by
    decide +kernel
  refine ⟨by unfold PlanState.Reached; decide +kernel, ?_, hpath, ?_⟩
  · rintro ⟨cell, hcell, hwalk⟩
    have hstone : shaft.get? (0, 63, 0) = some { blockType := "stone", walkable := false } := by
      decide
    rw [← Option.some.inj (hstone.symm.trans hcell)] at hwalk
    cases hwalk
  · intro result g hplan hnever
    rw [hplan] at hpath
    obtain ⟨first, rest, hrest, hfirst, htail⟩ :=
      List.map_eq_cons_iff.mp (Option.some.inj hpath)
    obtain ⟨again, last, rfl, hagain, -⟩ := List.map_eq_cons_iff.mp htail
    obtain ⟨_, hstep, -⟩ := hnever [] [] last first again hrest
      (.inr (Prod.mk.inj hfirst).1) (Prod.mk.inj hagain).1
      ((Prod.mk.inj hagain).2.trans (Prod.mk.inj hfirst).2.symm)
    cases hstep

end MineBot
