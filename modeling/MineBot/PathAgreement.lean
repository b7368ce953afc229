import MineBot.PathRecheck

/-!
# Planner and rechecker

A planned path, rechecked over the grid and with the policy it was planned
for. The two overlays stay `Alike`, so support, headroom and what is walkable
look the same to both; what a policy without an assessor answers depends on
the position and the block type alone. They can still disagree in three
places, and `StepPasses` says when they do not: a break of a cell, the
placement of a block, and the corners of a diagonal step.
-/

namespace MineBot

/-! ## Overlays that differ in what was placed -/

/-- A placed block. -/
def placedCell (blockType : String) : GridCell := { blockType := blockType, walkable := false }

/-- The same cell, or two placed blocks. -/
def SameShape (c c' : GridCell) : Prop :=
  c = c' ∨ ∃ t t', c = placedCell t ∧ c' = placedCell t'

/-- The overlays show the same cells, up to the types of placed blocks. -/
def Alike (world : GridWorld) (overlay overlay' : VirtualBlockOverlay) : Prop :=
  ∀ pos, Option.Rel SameShape (overlay.cellAt world pos) (overlay'.cellAt world pos)

section Alike

variable {world : GridWorld} {overlay overlay' : VirtualBlockOverlay} {pos : Position}
variable {c c' : GridCell} {κ : Type} {step : PathStep κ}

theorem SameShape.refl (c : GridCell) : SameShape c c := .inl rfl

theorem SameShape.walkable (h : SameShape c c') : c.walkable = c'.walkable := by
  obtain rfl | ⟨t, t', rfl, rfl⟩ := h <;> rfl

theorem SameShape.liquid (h : SameShape c c') : c.liquid = c'.liquid := by
  obtain rfl | ⟨t, t', rfl, rfl⟩ := h <;> rfl

theorem SameShape.requiresSupport (h : SameShape c c') :
    c.requiresSupport = c'.requiresSupport := by
  obtain rfl | ⟨t, t', rfl, rfl⟩ := h <;> rfl

theorem SameShape.fallDepth (h : SameShape c c') : c.fallDepth = c'.fallDepth := by
  obtain rfl | ⟨t, t', rfl, rfl⟩ := h <;> rfl

theorem SameShape.headroomBlock (h : SameShape c c') : c.headroomBlock = c'.headroomBlock := by
  obtain rfl | ⟨t, t', rfl, rfl⟩ := h <;> rfl

theorem Alike.refl (overlay : VirtualBlockOverlay) : Alike world overlay overlay := by
  intro pos
  cases overlay.cellAt world pos with
  | none => exact .none
  | some c => exact .some (.refl c)

theorem Alike.setCell (h : Alike world overlay overlay') (hc : SameShape c c') (pos : Position) :
    Alike world (overlay.setCell pos c) (overlay'.setCell pos c') := by
  intro pos'
  rw [VirtualBlockOverlay.cellAt_setCell, VirtualBlockOverlay.cellAt_setCell]
  by_cases hpos : pos = pos'
  · rw [if_pos hpos, if_pos hpos]
    exact .some hc
  · rw [if_neg hpos, if_neg hpos]
    exact h pos'

theorem Alike.opened (h : Alike world overlay overlay') (blockType : String)
    (headroomBlock : Option String) (target : Option Position) :
    Alike world (overlay.opened pos blockType headroomBlock target)
      (overlay'.opened pos blockType headroomBlock target) := by
  simp only [VirtualBlockOverlay.opened]
  split
  · exact ((h.setCell (.refl _) _).setCell (.refl _) _).setCell (.refl _) _
  · exact h.setCell (.refl _) _

/-- Both overlays follow a step, each in its own way. -/
theorem Alike.afterStep (h : Alike world overlay overlay') :
    Alike world (overlay.afterStep step.planned) (overlay'.afterStep step) := by
  by_cases hplace : step.move = .place
  · simp only [PathStep.planned, VirtualBlockOverlay.afterStep, hplace]
    exact h.setCell (.inr ⟨_, _, rfl, rfl⟩) _
  · rw [PathStep.planned_of_ne hplace]
    cases hmove : step.move with
    | place => exact absurd hmove hplace
    | «break» =>
        simp only [VirtualBlockOverlay.afterStep, hmove]
        exact h.setCell (.refl _) _
    | «open» =>
        simp only [VirtualBlockOverlay.afterStep, hmove]
        exact h.opened _ _ _
    | _ => simpa only [VirtualBlockOverlay.afterStep, hmove] using h

theorem Alike.some (h : Alike world overlay overlay') (hc : overlay.cellAt world pos = some c) :
    ∃ c', overlay'.cellAt world pos = some c' ∧ SameShape c c' := by
  have hpos := h pos
  rw [hc] at hpos
  generalize overlay'.cellAt world pos = seen at hpos ⊢
  cases hpos with
  | some hcc => exact ⟨_, rfl, hcc⟩

theorem Alike.none (h : Alike world overlay overlay') (hc : overlay.cellAt world pos = none) :
    overlay'.cellAt world pos = none := by
  have hpos := h pos
  rw [hc] at hpos
  generalize overlay'.cellAt world pos = seen at hpos ⊢
  cases hpos
  rfl

theorem Alike.hasSupport (h : Alike world overlay overlay') :
    hasSupport world overlay pos = MineBot.hasSupport world overlay' pos := by
  unfold MineBot.hasSupport
  cases hc : overlay.cellAt world pos.down with
  | none => rw [h.none hc]
  | some c =>
      obtain ⟨c', hc', hshape⟩ := h.some hc
      rw [hc']
      simp only [hshape.walkable, hshape.liquid]

theorem Alike.blockedHeadroom (h : Alike world overlay overlay') (hcc : SameShape c c')
    (hclear : blockedHeadroom world overlay pos c = .none) :
    MineBot.blockedHeadroom world overlay' pos c' = .none := by
  unfold MineBot.blockedHeadroom at hclear ⊢
  cases hup : overlay.cellAt world pos.up with
  | none =>
      rw [hup] at hclear
      rw [h.none hup, ← hcc.headroomBlock]
      exact hclear
  | some headroom =>
      obtain ⟨headroom', hup', hshape⟩ := h.some hup
      rw [hup] at hclear
      rw [hup']
      simp only [← hshape.walkable, ← hshape.liquid] at hclear ⊢
      by_cases hblocked : (!headroom.walkable || headroom.liquid) = true
      · rw [if_pos hblocked] at hclear
        cases hclear
      · rw [if_neg hblocked]

theorem Alike.footing (h : Alike world overlay overlay') (hcc : SameShape c c')
    (hfoot : Footing world overlay pos c) : Footing world overlay' pos c' :=
  ⟨fun hneeds => h.hasSupport ▸ hfoot.supported (hcc.requiresSupport ▸ hneeds),
    h.blockedHeadroom hcc hfoot.clear⟩

end Alike

/-! ## Corners -/

/-- The bot can brush past the corner. -/
def CornerClear (world : GridWorld) (overlay : VirtualBlockOverlay) (corner : Position) : Prop :=
  ∃ cell, overlay.cellAt world corner = some cell ∧
    blockedHeadroom world overlay corner cell = none ∧ cell.Clear

/-- A diagonal step has both its corners clear. -/
def CornersClear (world : GridWorld) (overlay : VirtualBlockOverlay) (current pos : Position) :
    Prop :=
  isHorizontalDiagonal current pos = true →
    CornerClear world overlay (pos.1, current.2.1, current.2.2) ∧
      CornerClear world overlay (current.1, current.2.1, pos.2.2)

section Corners

variable {γ κ : Type} {world : GridWorld} {legality : Legality γ} {num : CostNumbers κ}
variable {context : BreakContext} {overlay : VirtualBlockOverlay} {current pos : Position} {g : γ}

theorem cornerBlocker_eq_none {corner : Position} :
    (cornerBlocker world overlay legality num context corner g).1 = none ↔
      CornerClear world overlay corner := by
  unfold cornerBlocker CornerClear
  cases hcell : overlay.cellAt world corner with
  | none => simp
  | some cell =>
      cases hhead : blockedHeadroom world overlay corner cell with
      | some headroom => simp [hhead]
      | none =>
          by_cases hclear : (cell.walkable && !cell.liquid) = true
          · simp only [hhead, hclear, if_true, true_iff]
            simp only [Bool.and_eq_true, Bool.not_eq_true'] at hclear
            exact ⟨cell, rfl, hhead, hclear⟩
          · simp only [hhead, hclear]
            refine iff_of_false ?_ ?_
            · cases gravityBreakHazard world overlay corner cell.blockType <;> simp
            · rintro ⟨_, ⟨⟩, -, hwalk, hliquid⟩
              exact hclear (by rw [hwalk, hliquid]; rfl)

theorem diagonalBlocker_eq_none :
    (diagonalBlocker world overlay legality num context current pos g).1 = none ↔
      CornersClear world overlay current pos := by
  unfold diagonalBlocker CornersClear
  cases hdiagonal : isHorizontalDiagonal current pos with
  | false => simp
  | true =>
      have hfirst : (cornerBlocker world overlay legality num context
          (pos.1, current.2.1, current.2.2) g).1 = none ↔
            CornerClear world overlay (pos.1, current.2.1, current.2.2) := cornerBlocker_eq_none
      simp only [Bool.not_true, Bool.false_eq_true, if_false, true_imp_iff]
      split
      · next h =>
          rw [h] at hfirst
          exact iff_of_false (by simp) fun hclear => by simpa using hfirst.mpr hclear.1
      · next h =>
          rw [h] at hfirst
          rw [cornerBlocker_eq_none]
          exact ⟨fun hsecond => ⟨hfirst.mp rfl, hsecond⟩, fun hclear => hclear.2⟩

end Corners

/-! ## A policy without an assessor -/

section Unassessed

variable {σ : Type} {pyStr : σ → String} {p : GovernancePolicy}

theorem GovernancePolicy.canBreak_unassessed (h : p.assessed = false) (call : BreakCall)
    (readings readings' : BreakReadings σ) :
    p.canBreak pyStr call readings = ((p.canBreak pyStr call readings').1, p) := by
  have hrisk : ∀ blockType actor region, p.breakByRisk pyStr blockType actor region call readings
      = ((p.breakByRisk pyStr blockType actor region call readings').1, p) := by
    intro blockType actor region
    simp only [GovernancePolicy.breakByRisk, GovernancePolicy.assessStructureRisk, h,
      Bool.false_eq_true, if_false]
    split <;> rfl
  unfold GovernancePolicy.canBreak
  simp only [hrisk]
  split
  · rfl
  · split
    · rfl
    · split
      · rfl
      · split <;> rfl

theorem GovernancePolicy.canPlace_travel {pos : Position} {blockType bot : String} :
    (p.canPlace pos blockType .travel bot).allowed = true ↔
      regionContaining p.protectedRegions pos = none ∧
        (regionContaining p.naturalRegions pos).isSome ∧
        normalizeBlockType blockType ∉ stronglyProtectedTypes := by
  unfold GovernancePolicy.canPlace
  cases regionContaining p.protectedRegions pos with
  | some region => simp
  | none =>
      cases hnatural : regionContaining p.naturalRegions pos with
      | none => simp
      | some region =>
          by_cases htype : normalizeBlockType blockType ∈ stronglyProtectedTypes
          · simp [htype]
          · simp [htype]

end Unassessed

/-! ## Where they agree -/

/-- The rechecker has nothing against a planned step: the block a `BREAK` is
about is loaded, of the type the step says and no gravity hazard; the cell a
`PLACE` is about is loaded and not of a strongly protected type; and the
corners of a `DIAGONAL` are clear from where the rechecker has the bot. -/
def StepPasses {κ : Type} (world : GridWorld) (overlay : VirtualBlockOverlay) (current : Position)
    (step : PathStep κ) : Prop :=
  match step.move with
  | .break => ∃ cell, overlay.cellAt world step.pos = some cell ∧
      cell.blockType = step.blockType ∧
      gravityBreakHazard world overlay step.pos cell.blockType = none
  | .place => ∃ cell, overlay.cellAt world step.pos = some cell ∧
      normalizeBlockType cell.blockType ∉ stronglyProtectedTypes
  | .diagonal => CornersClear world overlay current step.pos
  | _ => True

/-- `StepPasses` all along the path, over the overlay `after_step` rebuilds. -/
def PathPasses {κ : Type} (world : GridWorld) :
    List (PathStep κ) → VirtualBlockOverlay → Position → Prop
  | [], _, _ => True
  | step :: steps, overlay, current => StepPasses world overlay current step ∧
      PathPasses world steps (overlay.afterStep step) (step.posAfter current)

section Agreement

variable {γ κ : Type} {world : GridWorld} {legality : Legality γ} {num : CostNumbers κ}
variable {context : BreakContext} {ok : γ → Prop} {overlay : VirtualBlockOverlay}
variable {current : Position} {step : PathStep κ} {cell : GridCell} {g : γ}

theorem candidateForStep_unblocked (hkeeps : legality.Keeps ok) (hg : ok g)
    (hcorners : step.move = .diagonal → CornersClear world overlay current step.pos)
    (hfoot : step.move.checked = true → Footing world overlay step.pos cell) :
    ∃ g', candidateForStep world legality num context step cell overlay current g
        = (plainCandidate world context step cell overlay, g') ∧ ok g' := by
  have hsupported : (step.move.checked && cell.requiresSupport &&
      !hasSupport world overlay step.pos) = false := by
    cases hchecked : step.move.checked with
    | false => rfl
    | true =>
        cases hneeds : cell.requiresSupport with
        | false => rfl
        | true => rw [(hfoot hchecked).supported hneeds]; rfl
  have hclear : (if step.move.checked then blockedHeadroom world overlay step.pos cell else none)
      = none := by
    split
    · next hchecked => exact (hfoot hchecked).clear
    · rfl
  unfold candidateForStep
  by_cases hdiagonal : step.move = .diagonal
  · have hnone : (diagonalBlocker world overlay legality num context current step.pos g).1 = none :=
      diagonalBlocker_eq_none.mpr (hcorners hdiagonal)
    have hkept : ok (diagonalBlocker world overlay legality num context current step.pos g).2 :=
      diagonalBlocker_keeps hkeeps hg
    refine ⟨_, ?_, hkept⟩
    simp only [if_pos hdiagonal]
    simp only [hnone, hsupported, hclear, Bool.false_eq_true, if_false]
  · refine ⟨g, ?_, hg⟩
    simp only [if_neg hdiagonal, hsupported, hclear, Bool.false_eq_true, if_false]

/-- A step that nothing is in the way of. -/
theorem recheckStep_unblocked (hkeeps : legality.Keeps ok) (hg : ok g)
    (hcell : overlay.cellAt world step.pos = some cell)
    (hcorners : step.move = .diagonal → CornersClear world overlay current step.pos)
    (hfoot : step.move.checked = true → Footing world overlay step.pos cell)
    {candidate : MovementCandidate}
    (hplain : plainCandidate world context step cell overlay = .ok candidate)
    (hpass : ∀ g, (evaluate legality num candidate g).1.passable = true)
    (hmove : step.move ≠ .break) :
    ∃ g', recheckStep world legality num context step overlay current g = (.ok none, g') ∧
      ok g' := by
  obtain ⟨g', hcandidate, hg'⟩ : ∃ g', candidateForStep world legality num context step cell
      overlay current g = (plainCandidate world context step cell overlay, g') ∧ ok g' :=
    candidateForStep_unblocked hkeeps hg hcorners hfoot
  refine ⟨(evaluate legality num candidate g').2, ?_, evaluate_keeps hkeeps hg'⟩
  have hnot : ¬ (step.move = .break ∧ cell.blockType ≠ step.blockType) := fun h => hmove h.1
  unfold recheckStep
  simp only [hcell, hcandidate, hplain, hpass, Bool.not_true, Bool.false_eq_true, if_false,
    if_neg hnot]

/-- A diagonal step whose corners are not clear. -/
theorem recheckStep_cornered (hkeeps : legality.Keeps ok) (hg : ok g)
    (hcell : overlay.cellAt world step.pos = some cell) (hmove : step.move = .diagonal)
    (hcorners : ¬ CornersClear world overlay current step.pos) :
    ∃ refusal g', recheckStep world legality num context step overlay current g
      = (.ok (some refusal), g') ∧ ok g' := by
  have hkept : ok (diagonalBlocker world overlay legality num context current step.pos g).2 :=
    diagonalBlocker_keeps hkeeps hg
  cases hblocker : (diagonalBlocker world overlay legality num context current step.pos g).1 with
  | none => exact absurd (diagonalBlocker_eq_none.mp hblocker) hcorners
  | some blocker =>
      obtain ⟨pos', reason, rfl⟩ := diagonalBlocker_invalid hblocker
      unfold recheckStep candidateForStep
      simp only [hcell, if_pos hmove, hblocker, evaluate]
      exact ⟨_, _, rfl, hkept⟩

theorem recheckStep_break (hkeeps : legality.Keeps ok) (hg : ok g) (hmove : step.move = .break)
    (hallowed : ∀ cell, overlay.cellAt world step.pos = some cell →
      cell.blockType = step.blockType →
        (legality.canBreak step.pos cell.blockType context g).1.allowed = true) :
    ∃ refusal g', recheckStep world legality num context step overlay current g
        = (.ok refusal, g') ∧ ok g' ∧
      (refusal = none ↔ StepPasses world overlay current step) := by
  simp only [StepPasses, hmove]
  unfold recheckStep
  cases hcell : overlay.cellAt world step.pos with
  | none => exact ⟨_, _, rfl, hg, iff_of_false (by simp) (by simp)⟩
  | some cell =>
      have hkept : ∀ candidate, ok (evaluate legality num candidate g).2 :=
        fun _ => evaluate_keeps hkeeps hg
      simp only [candidateForStep_break hmove, breakCandidate]
      cases hsafe : gravityBreakHazard world overlay step.pos cell.blockType with
      | some reason =>
          refine ⟨_, _, rfl, hg, iff_of_false (by simp) ?_⟩
          rintro ⟨_, ⟨⟩, -, hnone⟩
          rw [hsafe] at hnone
          cases hnone
      | none =>
          have hpass : (evaluate legality num (.break step.pos cell.blockType context) g).1.passable
              = (legality.canBreak step.pos cell.blockType context g).1.allowed :=
            evaluateBreak_passable
          by_cases htype : cell.blockType = step.blockType
          · have hsame : ¬ (step.move = .break ∧ cell.blockType ≠ step.blockType) :=
              fun h => h.2 htype
            simp only [hpass, hallowed cell hcell htype, Bool.not_true, Bool.false_eq_true,
              if_false, if_neg hsame]
            exact ⟨none, _, rfl, hkept _, iff_of_true rfl ⟨cell, rfl, htype, hsafe⟩⟩
          · have hnot : ¬ ∃ c, some cell = some c ∧ c.blockType = step.blockType ∧
                gravityBreakHazard world overlay step.pos c.blockType = none := by
              rintro ⟨_, ⟨⟩, heq, -⟩
              exact htype heq
            cases hdenied : (legality.canBreak step.pos cell.blockType context g).1.allowed with
            | false =>
                simp only [hpass, hdenied, Bool.not_false, if_true]
                exact ⟨_, _, rfl, hkept _, iff_of_false (by simp) hnot⟩
            | true =>
                have hchanged : step.move = .break ∧ cell.blockType ≠ step.blockType :=
                  ⟨hmove, htype⟩
                simp only [hpass, hdenied, Bool.not_true, Bool.false_eq_true, if_false,
                  if_pos hchanged]
                exact ⟨_, _, rfl, hkept _, iff_of_false (by simp) hnot⟩

theorem recheckStep_place (hkeeps : legality.Keeps ok) (hg : ok g) (hmove : step.move = .place)
    (hallowed : ∀ blockType, (legality.canPlace step.pos blockType .travel g).1.allowed = true ↔
      normalizeBlockType blockType ∉ stronglyProtectedTypes) :
    ∃ refusal g', recheckStep world legality num context step overlay current g
        = (.ok refusal, g') ∧ ok g' ∧
      (refusal = none ↔ StepPasses world overlay current step) := by
  have hcandidate : ∀ cell, candidateForStep world legality num context step cell overlay current g
      = (.ok (.place step.pos cell.blockType .travel none), g) := by
    intro cell
    simp [candidateForStep, hmove, MoveKind.checked, plainCandidate]
  simp only [StepPasses, hmove]
  unfold recheckStep
  cases hcell : overlay.cellAt world step.pos with
  | none => exact ⟨_, _, rfl, hg, iff_of_false (by simp) (by simp)⟩
  | some cell =>
      have hkept : ok (evaluate legality num (.place step.pos cell.blockType .travel none) g).2 :=
        evaluate_keeps hkeeps hg
      have hpass : (evaluate legality num
          (.place step.pos cell.blockType .travel none) g).1.passable
            = (legality.canPlace step.pos cell.blockType .travel g).1.allowed :=
        evaluatePlace_passable
      have hnot : ¬ (step.move = .break ∧ cell.blockType ≠ step.blockType) :=
        fun h => absurd (hmove.symm.trans h.1) (by decide)
      cases hallow : (legality.canPlace step.pos cell.blockType .travel g).1.allowed with
      | true =>
          simp only [hcandidate, hpass, hallow, Bool.not_true, Bool.false_eq_true, if_false,
            if_neg hnot]
          exact ⟨none, _, rfl, hkept, iff_of_true rfl ⟨cell, rfl, (hallowed _).mp hallow⟩⟩
      | false =>
          simp only [hcandidate, hpass, hallow, Bool.not_false, if_true]
          refine ⟨_, _, rfl, hkept, iff_of_false (by simp) ?_⟩
          rintro ⟨_, ⟨⟩, htype⟩
          rw [(hallowed _).mpr htype] at hallow
          cases hallow

variable (legality ok) in
/-- Answers that depend on the position and the block type alone. -/
structure Legality.Steady : Prop extends legality.Keeps ok where
  canBreak_eq : ∀ {pos blockType context g g'}, ok g → ok g' →
    (legality.canBreak pos blockType context g).1.allowed
      = (legality.canBreak pos blockType context g').1.allowed
  canPlace_iff : ∀ {pos}, PlaceAllowed legality ok pos "cobblestone" → ∀ {blockType g}, ok g →
    ((legality.canPlace pos blockType .travel g).1.allowed = true ↔
      normalizeBlockType blockType ∉ stronglyProtectedTypes)

theorem plainCandidate_passable (hkind : step.move.enters = true)
    (hshallow : step.move = .fall → max 1 cell.fallDepth ≤ maxSafeFall) :
    ∃ candidate, plainCandidate world context step cell overlay = .ok candidate ∧
      ∀ g, (evaluate legality num candidate g).1.passable = true := by
  unfold plainCandidate
  cases hmove : step.move with
  | fall =>
      refine ⟨_, rfl, fun g => ?_⟩
      simp only [evaluate, evaluateFall, if_neg (Int.not_lt.mpr (hshallow hmove))]
  | downward => rw [hmove] at hkind; cases hkind
  | «break» => rw [hmove] at hkind; cases hkind
  | place => rw [hmove] at hkind; cases hkind
  | «open» => rw [hmove] at hkind; cases hkind
  | invalid => rw [hmove] at hkind; cases hkind
  | _ => exact ⟨_, rfl, fun _ => rfl⟩

theorem stepPasses_of_enters (hkind : step.move.enters = true)
    (hcorners : step.move = .diagonal → CornersClear world overlay current step.pos) :
    StepPasses world overlay current step := by
  unfold StepPasses
  cases hmove : step.move with
  | diagonal => exact hcorners hmove
  | «break» => rw [hmove] at hkind; cases hkind
  | place => rw [hmove] at hkind; cases hkind
  | _ => trivial

theorem blockedHeadroom_type {pos headroom : Position} {blockType : String} {c : GridCell}
    (h : blockedHeadroom world overlay pos cell = some (headroom, blockType))
    (hc : overlay.cellAt world headroom = some c) : blockType = c.blockType := by
  rw [blockedHeadroom_pos h] at hc
  unfold blockedHeadroom at h
  simp only [hc] at h
  split at h
  · exact (Prod.mk.inj (Option.some.inj h)).2.symm
  · cases h

/-- The step lemma: the rechecker lets a planned step through exactly when
`StepPasses`. -/
theorem recheckStep_planned {s t : SearchState} (hsteady : legality.Steady ok) (hg : ok g)
    (h : StepsTo world legality num context ok s step t) (halike : Alike world s.overlay overlay) :
    ∃ refusal g', recheckStep world legality num context step overlay current g
        = (.ok refusal, g') ∧ ok g' ∧
      (refusal = none ↔ StepPasses world overlay current step) := by
  cases h with
  | @enter cell kind near loaded walkable footing corners shallow =>
      obtain ⟨cell', hcell', hshape⟩ := halike.some loaded
      by_cases hcornered : step.move = .diagonal ∧ ¬ CornersClear world overlay current step.pos
      · obtain ⟨refusal, g', hstep, hg'⟩ :=
          recheckStep_cornered hsteady.toKeeps hg hcell' hcornered.1 hcornered.2
        refine ⟨_, g', hstep, hg', iff_of_false (by simp) ?_⟩
        simp only [StepPasses, hcornered.1]
        exact hcornered.2
      · have hcorners : step.move = .diagonal → CornersClear world overlay current step.pos :=
          fun hmove => by_contra fun h => hcornered ⟨hmove, h⟩
        have hfoot : step.move.checked = true → Footing world overlay step.pos cell' := by
          intro hchecked
          refine halike.footing hshape (footing fun hswim => ?_)
          rw [hswim] at hchecked
          cases hchecked
        obtain ⟨candidate, hplain, hpass⟩ : ∃ candidate,
            plainCandidate world context step cell' overlay = .ok candidate ∧
              ∀ g, (evaluate legality num candidate g).1.passable = true :=
          plainCandidate_passable kind fun hfall => hshape.fallDepth ▸ shallow hfall
        obtain ⟨g', hstep, hg'⟩ := recheckStep_unblocked hsteady.toKeeps hg hcell' hcorners hfoot
          hplain hpass (fun hmove => by rw [hmove] at kind; cases kind)
        exact ⟨none, g', hstep, hg', iff_of_true rfl (stepPasses_of_enters kind hcorners)⟩
  | @dig cell kind below loaded solid footing allowed =>
      obtain ⟨cell', hcell', hshape⟩ := halike.some loaded
      have hplain : plainCandidate world context step cell' overlay
          = .ok (.simple .downward step.pos) := by
        simp only [plainCandidate, kind]
      obtain ⟨g', hstep, hg'⟩ := recheckStep_unblocked hsteady.toKeeps hg hcell'
        (fun hmove => absurd (kind.symm.trans hmove) (by decide))
        (fun _ => halike.footing hshape footing) hplain (fun _ => rfl)
        (fun hmove => absurd (kind.symm.trans hmove) (by decide))
      exact ⟨none, g', hstep, hg', iff_of_true rfl (by simp only [StepPasses, kind])⟩
  | @breakInto cell kind near loaded solid observed safe allowed =>
      refine recheckStep_break hsteady.toKeeps hg kind fun cell' hcell' htype => ?_
      obtain ⟨g', hg', hallowed⟩ := allowed
      rw [htype, observed, hsteady.canBreak_eq hg hg']
      exact hallowed
  | @breakAbove nextPos cell blockType kind near loaded blocked observed safe allowed =>
      refine recheckStep_break hsteady.toKeeps hg kind fun cell' hcell' htype => ?_
      obtain ⟨c, hc⟩ : ∃ c, s.overlay.cellAt world step.pos = some c := by
        cases hc : s.overlay.cellAt world step.pos with
        | some c => exact ⟨c, rfl⟩
        | none => rw [halike.none hc] at hcell'; cases hcell'
      obtain ⟨g', hg', hallowed⟩ := allowed
      rw [htype, observed c hc, ← blockedHeadroom_type blocked hc, hsteady.canBreak_eq hg hg']
      exact hallowed
  | place kind near support loaded needed missing observed allowed =>
      exact recheckStep_place hsteady.toKeeps hg kind fun _ => hsteady.canPlace_iff allowed hg
  | @«open» cell kind near loaded solid =>
      obtain ⟨cell', hcell', hshape⟩ := halike.some loaded
      have hplain : plainCandidate world context step cell' overlay
          = .ok (.open step.pos cell'.blockType (some (step.interactionTarget.getD step.pos))) := by
        simp only [plainCandidate, kind]
      obtain ⟨g', hstep, hg'⟩ := recheckStep_unblocked hsteady.toKeeps hg hcell'
        (fun hmove => absurd (kind.symm.trans hmove) (by decide))
        (fun hchecked => by rw [kind] at hchecked; cases hchecked) hplain (fun _ => rfl)
        (fun hmove => absurd (kind.symm.trans hmove) (by decide))
      exact ⟨none, g', hstep, hg', iff_of_true rfl (by simp only [StepPasses, kind])⟩

/-- The run lemma: the rechecker answers, and its answer is ok exactly when
every step passes. -/
theorem recheckSteps_planned {s t : SearchState} {moves : List (Move κ)} {checked : Nat}
    (hsteady : legality.Steady ok) (hg : ok g)
    (h : Trail world legality num context ok s moves t) (halike : Alike world s.overlay overlay) :
    RecheckOk (recheckSteps world legality num context (moves.map (·.step)) overlay current
        checked g) ↔
      PathPasses world (moves.map (·.step)) overlay current := by
  induction moves generalizing s overlay current checked g with
  | nil => exact iff_of_true ⟨_, rfl, rfl⟩ trivial
  | cons m moves ih =>
      obtain ⟨-, hsteps, hrest⟩ := h
      obtain ⟨refusal, g', hstep, hg', hpasses⟩ : ∃ refusal g',
          recheckStep world legality num context m.step overlay current g = (.ok refusal, g') ∧
            ok g' ∧ (refusal = none ↔ StepPasses world overlay current m.step) :=
        recheckStep_planned hsteady hg hsteps halike
      simp only [List.map_cons, recheckSteps, hstep, PathPasses]
      cases refusal with
      | some refusal =>
          refine iff_of_false ?_ fun h => by simpa using hpasses.mpr h.1
          rintro ⟨result, hresult, hok⟩
          rw [← Except.ok.inj hresult] at hok
          cases hok
      | none =>
          have halike' : Alike world m.after.overlay (overlay.afterStep m.step) := by
            rw [hsteps.overlay_eq]
            exact halike.afterStep
          rw [ih hg' hrest halike']
          exact (and_iff_right (hpasses.mp rfl)).symm

end Agreement

/-! ## Plan, then recheck -/

section Policy

variable {σ : Type} {pyStr : σ → String} {readings : Nat → BreakReadings σ} {p : GovernancePolicy}

theorem GovernancePolicy.steady_unassessed (h : p.assessed = false) :
    (GovernancePolicy.legality pyStr readings).Steady fun g => g.1 = p where
  canBreak := by
    rintro pos blockType context g rfl
    simp only [GovernancePolicy.legality]
    rw [GovernancePolicy.canBreak_unassessed h _ _ (readings g.2)]
  canPlace := fun hg => hg
  canBreak_eq := by
    rintro pos blockType context g g' rfl hg'
    simp only [GovernancePolicy.legality, hg']
    rw [GovernancePolicy.canBreak_unassessed h _ (readings g.2) (readings g'.2)]
  canPlace_iff := by
    rintro pos ⟨g, rfl, hallowed⟩ blockType g' hg'
    simp only [GovernancePolicy.legality, GovernancePolicy.canPlace_travel] at hallowed ⊢
    rw [hg']
    exact ⟨fun h => h.2.2, fun h => ⟨hallowed.1, hallowed.2.1, h⟩⟩

variable {κ : Type} [LinearOrder κ]

/-- A path is rechecked with the world, the policy and the context it was
planned for: the answer is ok exactly when every step passes. -/
theorem plan_recheck_iff (world : GridWorld) (num : CostNumbers κ) (goal : NavigationGoal)
    (params : PlanParams κ) (start : Position) (n : Nat) (hassessed : p.assessed = false)
    {result : PathResult κ} {g : GovernancePolicy × Nat}
    (hplan : plan world (GovernancePolicy.legality pyStr readings) num goal params start (p, n)
      = .ok (some result, g))
    (hpath : result.path ≠ []) {lookahead : Int} (hlookahead : result.path.length ≤ lookahead) :
    RecheckOk (recheck world (GovernancePolicy.legality pyStr readings) num params.breakContext
        result lookahead g) ↔
      PathPasses world result.path ⟨[]⟩ start := by
  have hsteady : (GovernancePolicy.legality pyStr readings).Steady fun g => g.1 = p :=
    GovernancePolicy.steady_unassessed hassessed
  obtain ⟨hg, hstart, moves, s, htrail, hsteps⟩ := plan_trail goal hsteady.toKeeps rfl hplan
  have htake : pyTake result.path lookahead = result.path := by
    rw [pyTake, if_pos (by omega)]
    exact List.take_of_length_le (by omega)
  have hrecheck : recheck world (GovernancePolicy.legality pyStr readings) num
      params.breakContext result lookahead g
        = recheckSteps world (GovernancePolicy.legality pyStr readings) num params.breakContext
            result.path ⟨[]⟩ start 0 g := by
    unfold recheck
    split
    · next hnil => exact absurd hnil hpath
    · simp only [pathStartOf, hstart hpath, htake]
  rw [hrecheck, hsteps]
  exact recheckSteps_planned hsteady hg htrail (.refl _)

end Policy

/-! ## A gap -/

/-- A cell that needs support, with a torch under it. -/
def gap : GridWorld :=
  [((0, 64, 0), {}), ((1, 64, 0), { requiresSupport := true }),
   ((1, 63, 0), { blockType := "minecraft:torch" })]

/-- The rechecker refuses the support the planner places: it asks whether a
torch may be placed there. -/
theorem gap_refused :
    ∃ path g, planExact gap naturalPolicy (0, 64, 0) (1, 64, 0) = .ok (some path, g) ∧
      path.path.map (fun step => (step.move, step.pos))
        = [(.place, (1, 63, 0)), (.walk, (1, 64, 0))] ∧
      ¬ RecheckOk (recheck gap exactLegality .exact .travel path 5 g) := by
  have hrun : planThenRecheck gap gap (0, 64, 0) (1, 64, 0)
      = some ([(.place, (1, 63, 0)), (.walk, (1, 64, 0))], false) := by decide +kernel
  obtain ⟨path, g, hplan, hkinds, result, hresult, hrefused⟩ := planThenRecheck_spec hrun
  refine ⟨path, g, hplan, hkinds, ?_⟩
  rintro ⟨result', hresult', hok⟩
  rw [← Except.ok.inj (hresult.symm.trans hresult'), hrefused] at hok
  cases hok

/-- The path through the corridor passes. -/
theorem plan_recheck_corridor :
    ∃ path g, planExact corridor naturalPolicy (0, 64, 0) (1, 64, 0) = .ok (some path, g) ∧
      (RecheckOk (recheck corridor exactLegality .exact .travel path 5 g) ↔
        PathPasses corridor path.path ⟨[]⟩ (0, 64, 0)) := by
  have hrun : planThenRecheck corridor corridor (0, 64, 0) (1, 64, 0)
      = some ([(.walk, (1, 64, 0))], true) := by decide +kernel
  obtain ⟨path, g, hplan, hkinds, -⟩ := planThenRecheck_spec hrun
  have hlength : path.path.length = 1 := by simpa using congrArg List.length hkinds
  refine ⟨path, g, hplan, plan_recheck_iff corridor .exact (.block (1, 64, 0)) exactParams
    (0, 64, 0) 0 rfl hplan ?_ (by rw [hlength]; decide)⟩
  intro hnil
  rw [hnil] at hlength
  cases hlength

end MineBot
