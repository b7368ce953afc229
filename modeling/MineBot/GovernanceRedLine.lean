import MineBot.Governance

/-!
# The red line of `can_break`

Which breaks `can_break` allows, in any state of the policy: what the bot
itself placed, a crop in a declared region, or a natural block that the
context may take and whose structure risk is settled. The order of the
checks disappears in the statement; each part of the cascade gets one
lemma.
-/

namespace MineBot

namespace GovernancePolicy

variable {σ : Type} {pyStr : σ → String} {p : GovernancePolicy}

/-! ## The parts of the cascade -/

theorem regionContaining_isSome (regions : List Region) (pos : Position) :
    (regionContaining regions pos).isSome ↔ ∃ r ∈ regions, r.contains pos = true := by
  rw [regionContaining, List.find?_isSome]

theorem regionContaining_eq_none {regions : List Region} {pos : Position} :
    regionContaining regions pos = none ↔ ∀ r ∈ regions, r.contains pos = false := by
  simp [regionContaining, List.find?_eq_none]

theorem mismatch?_eq_none {actor : Option String} :
    p.mismatch? actor = none
      ↔ ∀ expected observed, p.botName = some expected → actor = some observed →
        observed = expected := by
  unfold mismatch?
  constructor
  · intro h expected observed hexpected hobserved
    rw [hexpected, hobserved] at h
    dsimp only at h
    split at h
    · cases h
    · next heq => exact Decidable.not_not.mp heq
  · intro h
    split
    · next expected observed hexpected =>
        rw [if_neg (not_not.mpr (h expected observed hexpected rfl))]
    · rfl

theorem canBreakBotOwned_allowed {entry : BotPlacement} {blockType : String}
    {context : BreakContext} :
    (canBreakBotOwned entry blockType context).allowed = true
      ↔ entry.blockType = blockType
        ∧ (entry.purpose ∈ temporaryBotPurposes ∨ context = .botCleanup) := by
  unfold canBreakBotOwned
  split
  · next hne => simp [hne]
  · next heq =>
      split
      · next hpurpose => simp [hpurpose.1, hpurpose.2]
      · next hpurpose =>
          simp only [Decidable.not_not] at heq
          simp only [true_iff]
          refine ⟨heq, ?_⟩
          by_cases hcontext : context = .botCleanup
          · exact .inr hcontext
          · exact .inl (Decidable.not_not.mp fun h => hpurpose ⟨hcontext, h⟩)

/-- The context may take the natural block. -/
structure Takes (natural : Option Region) (blockType : String) (context : BreakContext)
    (explicitTarget : Bool) : Prop where
  breakable : blockType ∈ naturalBreakable
  unprotected : blockType ∉ stronglyProtectedTypes
  path : context ≠ .path
  cleanup : context ≠ .botCleanup
  travel : context = .travel → natural.isSome
  recovery : context = .recovery → blockType ∉ recoveryRouteAvoidTypes
  collect : context = .collect → blockType ∈ collectTargets ∨ explicitTarget = true

theorem farmTargets_protected : ∀ blockType ∈ farmTargets, blockType ∈ stronglyProtectedTypes := by
  decide

/-- The checks on type, region and context let exactly the takable blocks
through, and allow nothing but a crop in a declared region themselves. -/
theorem breakByType_spec (blockType : String) (context : BreakContext) (explicitTarget : Bool)
    (natural : Option Region) :
    (breakByType blockType context explicitTarget natural = none
        ∧ Takes natural blockType context explicitTarget)
      ∨ ∃ decision, breakByType blockType context explicitTarget natural = some decision
        ∧ ¬ Takes natural blockType context explicitTarget
        ∧ (decision.allowed = true
          ↔ context = .farm ∧ blockType ∈ farmTargets ∧ natural.isSome = true) := by
  generalize hresult : breakByType blockType context explicitTarget natural = result
  unfold breakByType at hresult
  dsimp only at hresult
  split at hresult
  · next hfarm =>
      have hnot : ¬ Takes natural blockType context explicitTarget := fun h =>
        h.unprotected (farmTargets_protected _ hfarm.2)
      split at hresult
      · exact .inr ⟨_, hresult.symm, hnot, by simp [hfarm]⟩
      · exact .inr ⟨_, hresult.symm, hnot, by simp [hfarm]⟩
  next hfarm =>
  have hdenied : ∀ {decision : LegalityDecision}, decision.allowed = false →
      (decision.allowed = true
        ↔ context = .farm ∧ blockType ∈ farmTargets ∧ natural.isSome = true) := by
    intro decision hfalse
    rw [hfalse]
    constructor
    · intro h
      cases h
    · exact fun h => absurd ⟨h.1, h.2.1⟩ hfarm
  split at hresult
  · next h => exact .inr ⟨_, hresult.symm, fun ht => ht.unprotected h, hdenied rfl⟩
  next hprotected =>
  split at hresult
  · next h =>
      refine .inr ⟨_, hresult.symm, fun ht => ?_, hdenied rfl⟩
      have hsome := ht.travel h.2
      rw [Option.isNone_iff_eq_none.mp h.1] at hsome
      cases hsome
  next htravel =>
  split at hresult
  · next h => exact .inr ⟨_, hresult.symm, fun ht => h ht.breakable, hdenied rfl⟩
  next hbreakable =>
  split at hresult
  · next h => exact .inr ⟨_, hresult.symm, fun ht => ht.path h, hdenied rfl⟩
  next hpath =>
  split at hresult
  · next h => exact .inr ⟨_, hresult.symm, fun ht => ht.recovery h.1 h.2, hdenied rfl⟩
  next hrecovery =>
  split at hresult
  · next h =>
      refine .inr ⟨_, hresult.symm, fun ht => ?_, hdenied rfl⟩
      rcases ht.collect h.1 with htarget | hexplicit
      · exact h.2.1 htarget
      · rw [h.2.2] at hexplicit
        cases hexplicit
  next hcollect =>
  split at hresult
  · next h => exact .inr ⟨_, hresult.symm, fun ht => ht.cleanup h, hdenied rfl⟩
  next hcleanup =>
  refine .inl ⟨hresult.symm, ?_⟩
  exact {
    breakable := Decidable.not_not.mp hbreakable
    unprotected := hprotected
    path := hpath
    cleanup := hcleanup
    travel := fun h => by
      cases natural with
      | none => exact absurd ⟨rfl, h⟩ htravel
      | some _ => rfl
    recovery := fun h htype => hrecovery ⟨h, htype⟩
    collect := fun h => by
      by_cases htarget : blockType ∈ collectTargets
      · exact .inl htarget
      · refine .inr (Decidable.byContradiction fun hexplicit => ?_)
        exact hcollect ⟨h, htarget, Bool.eq_false_iff.mpr hexplicit⟩ }

/-! ## Permits that are live -/

/-- Scanning finds a permit exactly where there is one with room. -/
theorem authorizeScan_isSome {covers : GovernancePermit → Bool} {pos : Position}
    (permits active : Dict String GovernancePermit) :
    (authorizeScan covers pos permits active).1.isSome
      ↔ ∃ e ∈ permits, covers e.2 = true ∧ exhausted pos e.2 = false := by
  induction permits generalizing active with
  | nil => simp [authorizeScan]
  | cons e permits ih =>
      obtain ⟨permitId, t⟩ := e
      simp only [authorizeScan]
      split
      · next h => simp [ih, Bool.eq_false_iff.mpr (by simpa using h)]
      · next h =>
          split
          · next hfull => simp [ih, hfull]
          · next hroom =>
              simp only [Option.isSome_some, true_iff]
              exact ⟨_, List.mem_cons_self, by simpa using h, Bool.eq_false_iff.mpr hroom⟩

theorem covers_iff {epoch : String} {bot : Option String} {context : BreakContext}
    {blockType : String} {pos : Position} {t : GovernancePermit} :
    covers epoch bot context blockType pos t = true
      ↔ t.epoch = epoch ∧ t.bot = bot ∧ t.context = context ∧ blockType ∈ t.blockTypes
        ∧ t.region.contains pos = true := by
  rw [covers, decide_eq_true_eq]

/-- A live permit for the break: not expired, of the current epoch, for
this bot, context and type, around the position, with room for it. -/
def LivePermit (pyStr : σ → String) (p : GovernancePolicy) (call : BreakCall)
    (readings : BreakReadings σ) : Prop :=
  ∃ e ∈ p.activePermits, e.2.expiresAt > readings.authorizeNow
    ∧ e.2.epoch = p.currentConfirmationEpoch pyStr readings.authorizeScopes.1
    ∧ e.2.epoch = p.currentConfirmationEpoch pyStr readings.authorizeScopes.2
    ∧ e.2.bot = actorOf call.bot p.botName ∧ e.2.context = call.context
    ∧ normalizeBlockType call.blockType ∈ e.2.blockTypes
    ∧ e.2.region.contains call.pos = true
    ∧ (call.pos ∈ e.2.authorizedPositions
      ∨ e.2.authorizedPositions.card < e.2.maxUniqueBlocks)

theorem authorize_isSome (pyStr : σ → String) (p : GovernancePolicy) (call : BreakCall)
    (readings : BreakReadings σ) :
    (p.authorizeFromConfirmedScope pyStr call.pos (normalizeBlockType call.blockType) call.context
        (actorOf call.bot p.botName) readings.authorizeNow readings.authorizeScopes).1.isSome
      ↔ LivePermit pyStr p call readings := by
  unfold authorizeFromConfirmedScope
  dsimp only
  rw [Option.isSome_map, authorizeScan_isSome]
  have hepoch : ∀ reading, (p.pruneConfirmationState pyStr readings.authorizeNow
      readings.authorizeScopes.1).currentConfirmationEpoch pyStr reading
      = p.currentConfirmationEpoch pyStr reading := fun _ => rfl
  have hroom : ∀ t : GovernancePermit, exhausted call.pos t = false
      ↔ call.pos ∈ t.authorizedPositions ∨ t.authorizedPositions.card < t.maxUniqueBlocks := by
    intro t
    simp only [exhausted, decide_eq_false_iff_not, not_and_or, Decidable.not_not, Nat.not_le]
  simp only [covers_iff, hepoch, hroom, LivePermit, Prod.exists]
  simp only [pruneConfirmationState, List.mem_filter, decide_eq_true_eq]
  constructor
  · rintro ⟨id, t, ⟨hmem, hexpires, hepoch₁⟩, ⟨hepoch₂, hbot, hcontext, htype, hregion⟩, hspace⟩
    exact ⟨id, t, hmem, hexpires, hepoch₁, hepoch₂, hbot, hcontext, htype, hregion, hspace⟩
  · rintro ⟨id, t, hmem, hexpires, hepoch₁, hepoch₂, hbot, hcontext, htype, hregion, hspace⟩
    exact ⟨id, t, ⟨hmem, hexpires, hepoch₁⟩, ⟨hepoch₂, hbot, hcontext, htype, hregion⟩, hspace⟩

/-- The structure risk is settled: nothing to assess it with and no need
to, or a complete answer of low risk, or of ambiguous risk under a live
permit. -/
def RiskSettled (pyStr : σ → String) (p : GovernancePolicy) (call : BreakCall)
    (readings : BreakReadings σ) : Prop :=
  (p.assessed = false ∧ p.requireStructureAssessment = false)
    ∨ ∃ assessment, p.assessed = true ∧ readings.answer = .assesses assessment
      ∧ assessment.complete = true
      ∧ (assessment.level = .low
        ∨ assessment.level = .ambiguous ∧ LivePermit pyStr p call readings)

theorem breakByRisk_allowed {call : BreakCall} {readings : BreakReadings σ}
    {region : Option String} :
    (p.breakByRisk pyStr (normalizeBlockType call.blockType) (actorOf call.bot p.botName) region
        call readings).1.allowed = true
      ↔ RiskSettled pyStr p call readings := by
  unfold breakByRisk RiskSettled assessStructureRisk
  cases hassessed : p.assessed with
  | false =>
      cases hrequired : p.requireStructureAssessment <;> simp
  | true =>
      cases hanswer : readings.answer with
      | fails exceptionName => simp
      | assesses assessment =>
          obtain ⟨pos, blockType, level, score, complete, cells, signals, source⟩ := assessment
          cases complete with
          | false => simp
          | true =>
              cases level with
              | low => simp
              | high => simp
              | ambiguous =>
                  have hlive := authorize_isSome pyStr p call readings
                  obtain ⟨⟨permit, p'⟩, hauthorize⟩ : ∃ r, p.authorizeFromConfirmedScope pyStr
                      call.pos (normalizeBlockType call.blockType) call.context
                      (actorOf call.bot p.botName) readings.authorizeNow readings.authorizeScopes
                      = r := ⟨_, rfl⟩
                  rw [hauthorize] at hlive
                  simp only [if_true, hauthorize]
                  cases permit with
                  | none => simpa using hlive
                  | some permit => simpa using hlive

/-! ## The red line -/

/-- Who may break what, where and why. -/
def WithinRedLine (pyStr : σ → String) (p : GovernancePolicy) (call : BreakCall)
    (readings : BreakReadings σ) : Prop :=
  (∀ expected observed, p.botName = some expected → actorOf call.bot p.botName = some observed →
      observed = expected)
    ∧ (∀ region ∈ p.protectedRegions, region.contains call.pos = false)
    ∧ ((∃ entry, p.botPlacements.get? call.pos = some entry
          ∧ entry.blockType = normalizeBlockType call.blockType
          ∧ (entry.purpose ∈ temporaryBotPurposes ∨ call.context = .botCleanup))
      ∨ (p.botPlacements.get? call.pos = none ∧ call.context = .farm
          ∧ normalizeBlockType call.blockType ∈ farmTargets
          ∧ ∃ region ∈ p.naturalRegions, region.contains call.pos = true)
      ∨ (p.botPlacements.get? call.pos = none
          ∧ normalizeBlockType call.blockType ∈ naturalBreakable
          ∧ normalizeBlockType call.blockType ∉ stronglyProtectedTypes
          ∧ call.context ≠ .path ∧ call.context ≠ .botCleanup
          ∧ (call.context = .travel → ∃ region ∈ p.naturalRegions, region.contains call.pos = true)
          ∧ (call.context = .recovery →
            normalizeBlockType call.blockType ∉ recoveryRouteAvoidTypes)
          ∧ (call.context = .collect →
            normalizeBlockType call.blockType ∈ collectTargets ∨ call.explicitTarget = true)
          ∧ RiskSettled pyStr p call readings))

/-- **The red line.** In every state of the policy `can_break` allows what
lies within it, and nothing else. -/
theorem can_break_red_line (pyStr : σ → String) (p : GovernancePolicy) (call : BreakCall)
    (readings : BreakReadings σ) :
    (p.canBreak pyStr call readings).1.allowed = true ↔ WithinRedLine pyStr p call readings := by
  unfold canBreak WithinRedLine
  dsimp only
  cases hmismatch : p.mismatch? (actorOf call.bot p.botName) with
  | some names =>
      have hnot := mt mismatch?_eq_none.mpr (hmismatch ▸ Option.some_ne_none names)
      exact ⟨(fun h => by cases h), fun h => absurd h.1 hnot⟩
  | none =>
  have hactor := mismatch?_eq_none.mp hmismatch
  cases hprotected : regionContaining p.protectedRegions call.pos with
  | some region =>
      have hnot := mt regionContaining_eq_none.mpr (hprotected ▸ Option.some_ne_none region)
      exact ⟨(fun h => by cases h), fun h => absurd h.2.1 hnot⟩
  | none =>
  have hunprotected := regionContaining_eq_none.mp hprotected
  cases hentry : p.botPlacements.get? call.pos with
  | some entry =>
      simp only [canBreakBotOwned_allowed]
      constructor
      · exact fun h => ⟨hactor, hunprotected, .inl ⟨entry, rfl, h⟩⟩
      · rintro ⟨-, -, ⟨_, ⟨⟩, h⟩ | ⟨h, -⟩ | ⟨h, -⟩⟩
        · exact h
        · cases h
        · cases h
  | none =>
  have hnatural := regionContaining_isSome p.naturalRegions call.pos
  rcases breakByType_spec (normalizeBlockType call.blockType) call.context call.explicitTarget
      (regionContaining p.naturalRegions call.pos) with
    ⟨hnone, htakes⟩ | ⟨decision, hsome, htakes, hallowed⟩
  · simp only [hnone, breakByRisk_allowed]
    constructor
    · intro hsettled
      refine ⟨hactor, hunprotected, .inr (.inr ⟨trivial, htakes.breakable, htakes.unprotected,
        htakes.path, htakes.cleanup, fun h => hnatural.mp (htakes.travel h), htakes.recovery,
        htakes.collect, hsettled⟩)⟩
    · rintro ⟨-, -, ⟨_, ⟨⟩, -⟩ | ⟨-, -, hfarm, -⟩ | ⟨-, -, -, -, -, -, -, -, hsettled⟩⟩
      · exact absurd (farmTargets_protected _ hfarm) htakes.unprotected
      · exact hsettled
  · simp only [hsome, hallowed]
    constructor
    · exact fun h => ⟨hactor, hunprotected, .inr (.inl ⟨trivial, h.1, h.2.1, hnatural.mp h.2.2⟩)⟩
    · rintro ⟨-, -, ⟨_, ⟨⟩, -⟩ | ⟨-, hfarm, htype, hregion⟩
        | ⟨-, hbreakable, hunprot, hpath, hcleanup, htravel, hrecovery, hcollect, -⟩⟩
      · exact ⟨hfarm, htype, hnatural.mpr hregion⟩
      · exact absurd ⟨hbreakable, hunprot, hpath, hcleanup, fun h => hnatural.mpr (htravel h),
          hrecovery, hcollect⟩ htakes

end GovernancePolicy

end MineBot
