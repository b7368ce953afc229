import MineBot.Governance
import MineBot.History

/-!
# Confirmed break authority

Runs of a `GovernancePolicy`. A break allowed under a permit goes back,
through the entries of the log, to the `confirm_scope` that made the
permit and to the `can_break` that raised its challenge (`Backed`); the
tables only ever hold challenges and permits with such a history, because
an epoch change empties them and everything else only prunes, confirms or
marks. Ids drawn by `uuid4` are taken to be new.
-/

namespace MineBot

namespace GovernancePolicy

variable {σ : Type}

/-! ## Runs -/

inductive PolicyInput (σ : Type) where
  | canBreak (call : BreakCall) (readings : BreakReadings σ)
  | confirmScope (challengeId purpose : String) (now : Rat) (scope : Option σ) (permitId : String)
  | dismissActionConfirmations (actionId : String)
  | pendingConfirmations (actionId : Option String) (now : Rat) (scope : Option σ)
  | recordBotPlacement (pos : Position) (blockType purpose bot : String)
  | beginConfirmationEpoch (scopeBound : Bool) (epoch : String)
  | invalidateConfirmationState (epoch : String)

inductive PolicyOutput where
  | decided (decision : LegalityDecision)
  | answered (answer : ConfirmAnswer)
  | listed (challenges : List ChallengePayload)
  | done

abbrev PolicyLog (σ : Type) := List (PolicyInput σ × PolicyOutput)

def policyStep (pyStr : σ → String) (p : GovernancePolicy) :
    PolicyInput σ → PolicyOutput × GovernancePolicy
  | .canBreak call readings =>
      (.decided (p.canBreak pyStr call readings).1, (p.canBreak pyStr call readings).2)
  | .confirmScope challengeId purpose now scope permitId =>
      (.answered (p.confirmScope pyStr challengeId purpose now scope permitId).1,
        (p.confirmScope pyStr challengeId purpose now scope permitId).2)
  | .dismissActionConfirmations actionId => (.done, p.dismissActionConfirmations actionId)
  | .pendingConfirmations actionId now scope =>
      (.listed (p.pendingConfirmations pyStr actionId now scope).1,
        (p.pendingConfirmations pyStr actionId now scope).2)
  | .recordBotPlacement pos blockType purpose bot =>
      (.done, p.recordBotPlacement pos blockType purpose bot)
  | .beginConfirmationEpoch scopeBound epoch => (.done, p.beginConfirmationEpoch scopeBound epoch)
  | .invalidateConfirmationState epoch => (.done, p.invalidateConfirmationState epoch)

/-- The challenge id a call would draw. -/
def PolicyInput.challengeId? : PolicyInput σ → Option String
  | .canBreak _ readings => some readings.challengeId
  | _ => none

/-- The permit id a call would draw. -/
def PolicyInput.permitId? : PolicyInput σ → Option String
  | .confirmScope _ _ _ _ permitId => some permitId
  | _ => none

/-- The ids a call draws were not drawn before. -/
def FreshDraws (log : PolicyLog σ) (_ : GovernancePolicy) (i : PolicyInput σ) : Prop :=
  (∀ id, i.challengeId? = some id → ∀ e ∈ log, e.1.challengeId? ≠ some id)
    ∧ ∀ id, i.permitId? = some id → ∀ e ∈ log, e.1.permitId? ≠ some id

/-- The input starts a new confirmation epoch. -/
def PolicyInput.startsEpoch : PolicyInput σ → Bool
  | .beginConfirmationEpoch _ _ | .invalidateConfirmationState _ => true
  | _ => false

/-! ## What a log says -/

/-- The entry raises the challenge: a break is refused for a confirmation
whose id is the one just drawn. -/
def Raises (e : PolicyInput σ × PolicyOutput) (challengeId : String) : Prop :=
  ∃ call readings decision risk challenge, e = (.canBreak call readings, .decided decision)
    ∧ decision.details = .challenged risk challenge ∧ challenge.challengeId = challengeId
    ∧ readings.challengeId = challengeId

/-- The entry turns a challenge into a permit. -/
def confirms? : PolicyInput σ × PolicyOutput → Option (String × PermitPayload)
  | (_, .answered (.confirmed challengeId permit)) => some (challengeId, permit)
  | _ => none

/-- How often a challenge was turned into a permit. -/
def confirmations (log : PolicyLog σ) (challengeId : String) : Nat :=
  log.countP fun e => (confirms? e).map Prod.fst = some challengeId

/-- The position the entry allows to break under the permit. -/
def allowsUnder? (permitId : String) : PolicyInput σ × PolicyOutput → Option Position
  | (.canBreak call _, .decided decision) => match decision.details with
      | .permitted _ permit => if permit.permitId = permitId then some call.pos else none
      | _ => none
  | _ => none

/-- The distinct positions ever allowed under the permit. -/
def allowedUnder (log : PolicyLog σ) (permitId : String) : Finset Position :=
  (log.filterMap (allowsUnder? permitId)).toFinset

theorem confirmations_append (log log' : PolicyLog σ) (challengeId : String) :
    confirmations (log ++ log') challengeId
      = confirmations log challengeId + confirmations log' challengeId :=
  List.countP_append

theorem allowedUnder_append (log : PolicyLog σ) (e : PolicyInput σ × PolicyOutput)
    (permitId : String) : allowedUnder (log ++ [e]) permitId
      = match allowsUnder? permitId e with
        | some pos => insert pos (allowedUnder log permitId)
        | none => allowedUnder log permitId := by
  simp only [allowedUnder, List.filterMap_append, List.toFinset_append, List.filterMap_cons,
    List.filterMap_nil]
  cases allowsUnder? permitId e with
  | none => simp
  | some pos => simp [Finset.union_comm]

/-! ## Where challenges and permits come from -/

/-- The challenge fits the call that raised it. -/
structure FitsRaise (pyStr : σ → String) (p : GovernancePolicy) (call : BreakCall)
    (readings : BreakReadings σ) (c : GovernanceChallenge) : Prop where
  id : c.challengeId = readings.challengeId
  bot : c.bot = actorOf call.bot p.botName
  context : c.context = call.context
  blockTypes : c.blockTypes = [normalizeBlockType call.blockType]
  region : c.region = p.confirmationRegion readings.challengeId call.context call.pos
  expiresAt : c.expiresAt = readings.pendingNow + p.confirmationTtl
  epoch : c.epoch = p.currentConfirmationEpoch pyStr readings.pendingScopes.2

/-- A call in the log raised the challenge, in the current epoch. -/
def RaisedIn (pyStr : σ → String) (p : GovernancePolicy) (log : PolicyLog σ)
    (c : GovernanceChallenge) : Prop :=
  ∃ before call readings decision after,
    log = before ++ (.canBreak call readings, .decided decision) :: after
    ∧ Raises (.canBreak call readings, .decided decision) c.challengeId
    ∧ (∀ e ∈ after, e.1.startsEpoch = false) ∧ FitsRaise pyStr p call readings c

/-- A confirmation in the log made the permit out of a challenge raised
before, both in the current epoch. -/
def GrantedIn (pyStr : σ → String) (p : GovernancePolicy) (log : PolicyLog σ)
    (t : GovernancePermit) : Prop :=
  ∃ before challengeId purpose now scope permitId after c positions,
    log = before ++ (.confirmScope challengeId purpose now scope permitId, .answered
      (.confirmed c.challengeId ((permitOf c permitId (boundedText purpose 160)).payload now)))
        :: after
    ∧ RaisedIn pyStr p before c ∧ boundedText purpose 160 ≠ ""
    ∧ (∀ e ∈ after, e.1.startsEpoch = false)
    ∧ t = { permitOf c permitId (boundedText purpose 160) with authorizedPositions := positions }

/-! ## What one call does to the tables -/

/-- What only an epoch change touches. -/
def frame (p : GovernancePolicy) : GovernancePolicy :=
  { p with botPlacements := [], pendingChallenges := [], activePermits := [] }

/-- The same challenge, perhaps for other actions. -/
def Marked (c c' : GovernanceChallenge) : Prop :=
  ∃ actionIds, c' = { c with actionIds := actionIds }

/-- The challenge was pending, up to its actions. -/
def WasPending (p : GovernancePolicy) (e : String × GovernanceChallenge) : Prop :=
  ∃ c, (e.1, c) ∈ p.pendingChallenges ∧ Marked c e.2

/-- Nothing new stands in the tables. -/
structure Kept (p p' : GovernancePolicy) : Prop where
  frame : p'.frame = p.frame
  pending : ∀ e ∈ p'.pendingChallenges, WasPending p e
  active : p'.activePermits.Sublist p.activePermits

section Tables

variable {pyStr : σ → String} {p p' p'' : GovernancePolicy}

theorem wasPending_of_mem {e : String × GovernanceChallenge} (h : e ∈ p.pendingChallenges) :
    WasPending p e := ⟨e.2, h, e.2.actionIds, rfl⟩

theorem Kept.refl (p : GovernancePolicy) : Kept p p :=
  ⟨rfl, fun _ he => wasPending_of_mem he, .refl _⟩

theorem WasPending.trans {e : String × GovernanceChallenge} (h : Kept p p')
    (he : WasPending p' e) : WasPending p e := by
  obtain ⟨c, hc, marks, hmarks⟩ := he
  obtain ⟨c', hc', marks', rfl⟩ := h.pending _ hc
  exact ⟨c', hc', marks, hmarks⟩

theorem Kept.trans (h : Kept p p') (h' : Kept p' p'') : Kept p p'' :=
  ⟨h'.frame.trans h.frame, fun _ he => (h'.pending _ he).trans h, h'.active.trans h.active⟩

theorem kept_prune (pyStr : σ → String) (p : GovernancePolicy) (now : Rat) (reading : Option σ) :
    Kept p (p.pruneConfirmationState pyStr now reading) :=
  ⟨rfl, fun _ he => wasPending_of_mem (List.mem_filter.mp he).1, List.filter_sublist⟩

/-- A permit that scanning finds has room; the exhausted ones before it
are dropped, its own entry is replaced. -/
theorem authorizeScan_some {covers : GovernancePermit → Bool} {pos : Position}
    {t' : GovernancePermit} {active' : Dict String GovernancePermit} :
    ∀ {permits active : Dict String GovernancePermit},
      authorizeScan covers pos permits active = (some t', active') →
      ∃ key t kept, (key, t) ∈ permits ∧ covers t = true ∧ exhausted pos t = false
        ∧ t' = { t with authorizedPositions := insert pos t.authorizedPositions }
        ∧ kept.Sublist active ∧ active' = Dict.set kept key t' := by
  intro permits
  induction permits with
  | nil =>
      intro active h
      cases h
  | cons e permits ih =>
      obtain ⟨key, t⟩ := e
      intro active h
      simp only [authorizeScan] at h
      split at h
      · obtain ⟨key', t₀, kept, hmem, hspec⟩ := ih h
        exact ⟨key', t₀, kept, List.mem_cons_of_mem _ hmem, hspec⟩
      · next hcovers =>
          split at h
          · obtain ⟨key', t₀, kept, hmem, hcov, hroom, ht, hkept, hactive⟩ := ih h
            exact ⟨key', t₀, kept, List.mem_cons_of_mem _ hmem, hcov, hroom, ht,
              hkept.trans List.filter_sublist, hactive⟩
          · next hroom =>
              obtain ⟨ht, hactive⟩ := Prod.mk.inj h
              obtain rfl := Option.some.inj ht
              exact ⟨key, t, active, List.mem_cons_self, by simpa using hcovers,
                Bool.eq_false_iff.mpr hroom, rfl, .refl _, hactive.symm⟩

theorem authorizeScan_none {covers : GovernancePermit → Bool} {pos : Position}
    {active' : Dict String GovernancePermit} :
    ∀ {permits active : Dict String GovernancePermit},
      authorizeScan covers pos permits active = (none, active') → active'.Sublist active := by
  intro permits
  induction permits with
  | nil =>
      intro active h
      cases h
      exact .refl _
  | cons e permits ih =>
      obtain ⟨key, t⟩ := e
      intro active h
      simp only [authorizeScan] at h
      split at h
      · exact ih h
      · split at h
        · exact (ih h).trans List.filter_sublist
        · cases h

/-- The permit lets the break pass: it is live, it is for it, and it has
room for the position. -/
structure Passes (pyStr : σ → String) (p : GovernancePolicy) (call : BreakCall)
    (readings : BreakReadings σ) (t : GovernancePermit) : Prop where
  expiresAt : t.expiresAt > readings.authorizeNow
  epoch : t.epoch = p.currentConfirmationEpoch pyStr readings.authorizeScopes.1
  epochAgain : t.epoch = p.currentConfirmationEpoch pyStr readings.authorizeScopes.2
  bot : t.bot = actorOf call.bot p.botName
  context : t.context = call.context
  blockType : normalizeBlockType call.blockType ∈ t.blockTypes
  region : t.region.contains call.pos = true
  room : call.pos ∈ t.authorizedPositions ∨ t.authorizedPositions.card < t.maxUniqueBlocks

/-- What the policy is after a break under the permit. -/
structure Spends (p : GovernancePolicy) (pos : Position) (key : String) (t : GovernancePermit)
    (p' : GovernancePolicy) : Prop where
  frame : p'.frame = p.frame
  pending : ∀ e ∈ p'.pendingChallenges, WasPending p e
  active : ∃ kept, kept.Sublist p.activePermits ∧ p'.activePermits
    = Dict.set kept key { t with authorizedPositions := insert pos t.authorizedPositions }

variable (pyStr p)

theorem authorize_spec (call : BreakCall) (readings : BreakReadings σ) :
    (∃ p', Kept p p' ∧ p.authorizeFromConfirmedScope pyStr call.pos
        (normalizeBlockType call.blockType) call.context (actorOf call.bot p.botName)
        readings.authorizeNow readings.authorizeScopes = (none, p'))
      ∨ ∃ key t p', (key, t) ∈ p.activePermits ∧ Passes pyStr p call readings t
        ∧ Spends p call.pos key t p'
        ∧ p.authorizeFromConfirmedScope pyStr call.pos
          (normalizeBlockType call.blockType) call.context (actorOf call.bot p.botName)
          readings.authorizeNow readings.authorizeScopes
          = (some ({ t with authorizedPositions := insert call.pos t.authorizedPositions }.payload
              readings.authorizeNow), p') := by
  have hprune := kept_prune pyStr p readings.authorizeNow readings.authorizeScopes.1
  unfold authorizeFromConfirmedScope
  dsimp only
  generalize hpruned : p.pruneConfirmationState pyStr readings.authorizeNow
    readings.authorizeScopes.1 = q at hprune ⊢
  have hepoch : ∀ reading, q.currentConfirmationEpoch pyStr reading
      = p.currentConfirmationEpoch pyStr reading := fun _ => hpruned ▸ rfl
  rw [hepoch]
  generalize hscan : authorizeScan _ call.pos q.activePermits q.activePermits = result
  obtain ⟨permit, active⟩ := result
  cases permit with
  | none =>
      have hactive := authorizeScan_none hscan
      exact .inl ⟨{ q with activePermits := active },
        ⟨hprune.frame, hprune.pending, hactive.trans hprune.active⟩, rfl⟩
  | some t' =>
      obtain ⟨key, t, kept, hmem, hcovers, hroom, rfl, hkept, hactive⟩ := authorizeScan_some hscan
      rw [← hpruned] at hmem
      obtain ⟨hmem, hlive⟩ := List.mem_filter.mp hmem
      obtain ⟨hexpires, hepoch₁⟩ := of_decide_eq_true hlive
      obtain ⟨hepoch₂, hbot, hcontext, htype, hregion⟩ := of_decide_eq_true hcovers
      refine .inr ⟨key, t, { q with activePermits := active }, hmem,
        ⟨hexpires, hepoch₁, hepoch₂, hbot, hcontext, htype, hregion, ?_⟩,
        ⟨hprune.frame, hprune.pending, kept, hkept.trans hprune.active, hactive⟩, rfl⟩
      have hspace := of_decide_eq_false hroom
      rw [not_and_or, Decidable.not_not, Nat.not_le] at hspace
      exact hspace

/-- A challenge is joined or raised. -/
theorem pendingConfirmation_spec (call : BreakCall) (assessment : StructureRiskAssessment)
    (readings : BreakReadings σ) :
    (Kept p (p.pendingConfirmation pyStr call.pos (normalizeBlockType call.blockType) call.context
        assessment (actorOf call.bot p.botName) call.actionId readings.pendingNow
        readings.pendingScopes readings.challengeId).2)
      ∨ ∃ c p', FitsRaise pyStr p call readings c ∧ p'.frame = p.frame
        ∧ (∀ e ∈ p'.pendingChallenges, WasPending p e ∨ e = (readings.challengeId, c))
        ∧ p'.activePermits.Sublist p.activePermits
        ∧ p.pendingConfirmation pyStr call.pos (normalizeBlockType call.blockType) call.context
          assessment (actorOf call.bot p.botName) call.actionId readings.pendingNow
          readings.pendingScopes readings.challengeId = (c.payload readings.pendingNow, p') := by
  have hprune := kept_prune pyStr p readings.pendingNow readings.pendingScopes.1
  unfold pendingConfirmation
  dsimp only
  generalize hpruned : p.pruneConfirmationState pyStr readings.pendingNow
    readings.pendingScopes.1 = q at hprune ⊢
  have hepoch : ∀ reading, q.currentConfirmationEpoch pyStr reading
      = p.currentConfirmationEpoch pyStr reading := fun _ => hpruned ▸ rfl
  rw [hepoch]
  have hregion : q.confirmationRegion readings.challengeId call.context call.pos
      = p.confirmationRegion readings.challengeId call.context call.pos := hpruned ▸ rfl
  have httl : q.confirmationTtl = p.confirmationTtl := hpruned ▸ rfl
  split
  · next key c hfind =>
      refine .inl ⟨hprune.frame, fun e he => ?_, hprune.active⟩
      rcases Dict.mem_of_mem_set he with rfl | he
      · exact WasPending.trans hprune ⟨c, List.mem_of_find?_eq_some hfind, _, rfl⟩
      · exact hprune.pending e he
  · let c : GovernanceChallenge := {
      challengeId := readings.challengeId
      bot := actorOf call.bot p.botName
      context := call.context
      blockTypes := [normalizeBlockType call.blockType]
      region := q.confirmationRegion readings.challengeId call.context call.pos
      maxUniqueBlocks := confirmationMaxUniqueBlocks call.context
      createdAt := readings.pendingNow
      expiresAt := readings.pendingNow + q.confirmationTtl
      epoch := p.currentConfirmationEpoch pyStr readings.pendingScopes.2
      evidence := structureRiskPayload assessment
      actionIds := addAction [] call.actionId }
    refine .inr ⟨c, { q with pendingChallenges := q.pendingChallenges.set readings.challengeId c },
      ⟨rfl, rfl, rfl, rfl, hregion, ?_, rfl⟩, hprune.frame, fun e he => ?_, hprune.active, rfl⟩
    · show readings.pendingNow + q.confirmationTtl = _
      rw [httl]
    · rcases Dict.mem_of_mem_set he with rfl | he
      · exact .inr rfl
      · exact .inl (hprune.pending e he)

end Tables

/-! ## What one step does -/

/-- The decision allows nothing under a permit. -/
def Plain (decision : LegalityDecision) : Prop :=
  decision.reason ≠ "allowed_governance_scope"
    ∧ ∀ risk permit, decision.details ≠ .permitted risk permit

/-- What `can_break` may come to. -/
inductive BreakCase (pyStr : σ → String) (p : GovernancePolicy) (call : BreakCall)
    (readings : BreakReadings σ) : LegalityDecision × GovernancePolicy → Prop where
  | plain {decision : LegalityDecision} {p' : GovernancePolicy} :
      Kept p p' → Plain decision → BreakCase pyStr p call readings (decision, p')
  | raised {region : Option String} {risk : StructureRiskPayload} {c : GovernanceChallenge}
      {p' : GovernancePolicy} : FitsRaise pyStr p call readings c → p'.frame = p.frame →
      (∀ e ∈ p'.pendingChallenges, WasPending p e ∨ e = (readings.challengeId, c)) →
      p'.activePermits.Sublist p.activePermits →
      BreakCase pyStr p call readings
        ({ allowed := false, reason := "governance_confirmation_required", naturalRegion := region
           details := .challenged risk (c.payload readings.pendingNow) }, p')
  | allowed {region : Option String} {assessment : StructureRiskAssessment} {key : String}
      {t : GovernancePermit} {p' : GovernancePolicy} : p.assessed = true →
      readings.answer = .assesses assessment → assessment.complete = true →
      assessment.level = .ambiguous → (key, t) ∈ p.activePermits → Passes pyStr p call readings t →
      Spends p call.pos key t p' →
      BreakCase pyStr p call readings
        ({ allowed := true, reason := "allowed_governance_scope", naturalRegion := region
           details := .permitted (structureRiskPayload assessment)
            ({ t with authorizedPositions := insert call.pos t.authorizedPositions }.payload
              readings.authorizeNow) }, p')

section Calls

variable {pyStr : σ → String} {p p' : GovernancePolicy}

theorem botName_of_frame (h : p'.frame = p.frame) : p'.botName = p.botName := by
  show p'.frame.botName = p.frame.botName
  rw [h]

theorem epoch_of_frame (h : p'.frame = p.frame) (reading : Option σ) :
    p'.currentConfirmationEpoch pyStr reading = p.currentConfirmationEpoch pyStr reading := by
  show p'.frame.currentConfirmationEpoch pyStr reading
    = p.frame.currentConfirmationEpoch pyStr reading
  rw [h]

theorem FitsRaise.congr {call : BreakCall} {readings : BreakReadings σ} {c : GovernanceChallenge}
    (hframe : p'.frame = p.frame) (h : FitsRaise pyStr p call readings c) :
    FitsRaise pyStr p' call readings c := by
  have hname := botName_of_frame hframe
  have httl : p'.frame.confirmationTtl = p.frame.confirmationTtl := by rw [hframe]
  have hregion : p'.frame.confirmationRegion = p.frame.confirmationRegion := by rw [hframe]
  refine ⟨h.id, hname ▸ h.bot, h.context, h.blockTypes, ?_, ?_, ?_⟩
  · exact h.region.trans (congrFun (congrFun (congrFun hregion.symm _) _) _)
  · exact h.expiresAt.trans (congrArg _ httl.symm)
  · exact h.epoch.trans (epoch_of_frame hframe _).symm

theorem plain_canBreakBotOwned (entry : BotPlacement) (blockType : String)
    (context : BreakContext) : Plain (canBreakBotOwned entry blockType context) := by
  unfold canBreakBotOwned Plain
  split
  · simp
  · split <;> simp

theorem plain_breakByType {blockType : String} {context : BreakContext} {explicitTarget : Bool}
    {natural : Option Region} {decision : LegalityDecision}
    (h : breakByType blockType context explicitTarget natural = some decision) :
    Plain decision := by
  unfold breakByType at h
  dsimp only at h
  unfold Plain
  repeat' split at h
  all_goals
    cases h
    try simp

variable (pyStr p)

theorem breakByRisk_cases (blockType : String) (region : Option String) (call : BreakCall)
    (readings : BreakReadings σ) (htype : blockType = normalizeBlockType call.blockType) :
    BreakCase pyStr p call readings
      (p.breakByRisk pyStr blockType (actorOf call.bot p.botName) region call readings) := by
  subst htype
  unfold breakByRisk
  split
  · split <;> exact .plain (.refl p) (by simp [Plain])
  · next assessment hassess =>
      dsimp only
      split
      · exact .plain (.refl p) (by simp [Plain])
      · next hcomplete =>
          split
          · exact .plain (.refl p) (by simp [Plain])
          · next hlevel =>
              rcases authorize_spec pyStr p call readings with
                ⟨q, hq, hnone⟩ | ⟨key, t, q, hmem, hpasses, hspends, hsome⟩
              · rw [hnone]
                dsimp only
                rw [← botName_of_frame hq.frame]
                rcases pendingConfirmation_spec pyStr q call assessment readings
                  with hkept | ⟨c, q', hfits, hframe, hpending, hactive, heq⟩
                · exact .plain (hq.trans hkept) (by simp [Plain])
                · rw [heq]
                  refine .raised (hfits.congr hq.frame.symm) (hframe.trans hq.frame) ?_
                    (hactive.trans hq.active)
                  exact fun e he => (hpending e he).imp (WasPending.trans hq) id
              · rw [hsome]
                have ⟨hassessed, hanswer⟩ : p.assessed = true
                    ∧ readings.answer = .assesses assessment := by
                  unfold assessStructureRisk at hassess
                  split at hassess
                  · next hassessed =>
                      refine ⟨hassessed, ?_⟩
                      split at hassess
                      · next hanswer => exact hanswer.trans (congrArg _ (Option.some.inj hassess))
                      · obtain rfl := Option.some.inj hassess
                        exact absurd rfl hcomplete
                  · cases hassess
                exact .allowed hassessed hanswer (Bool.not_eq_false _ ▸ hcomplete) hlevel hmem
                  hpasses hspends
          · exact .plain (.refl p) (by simp [Plain])

theorem canBreak_cases (call : BreakCall) (readings : BreakReadings σ) :
    BreakCase pyStr p call readings (p.canBreak pyStr call readings) := by
  unfold canBreak
  dsimp only
  split
  · exact .plain (.refl p) (by simp [Plain])
  · split
    · exact .plain (.refl p) (by simp [Plain])
    · split
      · exact .plain (.refl p) (plain_canBreakBotOwned _ _ _)
      · split
        · next hdecision => exact .plain (.refl p) (plain_breakByType hdecision)
        · exact breakByRisk_cases pyStr p _ _ _ _ rfl

end Calls

/-- What one step may come to. -/
inductive Change (pyStr : σ → String) (p : GovernancePolicy) :
    PolicyInput σ × PolicyOutput → GovernancePolicy → Prop where
  | epoch {i : PolicyInput σ} {p' : GovernancePolicy} : i.startsEpoch = true →
      p'.pendingChallenges = [] → p'.activePermits = [] → Change pyStr p (i, .done) p'
  | quiet {e : PolicyInput σ × PolicyOutput} {p' : GovernancePolicy} : e.1.startsEpoch = false →
      confirms? e = none → (∀ permitId, allowsUnder? permitId e = none) → Kept p p' →
      Change pyStr p e p'
  | raised {call : BreakCall} {readings : BreakReadings σ} {decision : LegalityDecision}
      {c : GovernanceChallenge} {p' : GovernancePolicy} : FitsRaise pyStr p call readings c →
      Raises (.canBreak call readings, .decided decision) c.challengeId → p'.frame = p.frame →
      (∀ e ∈ p'.pendingChallenges, WasPending p e ∨ e = (readings.challengeId, c)) →
      p'.activePermits.Sublist p.activePermits →
      Change pyStr p (.canBreak call readings, .decided decision) p'
  | confirmed {challengeId purpose : String} {now : Rat} {scope : Option σ} {permitId : String}
      {e : String × GovernanceChallenge} {kept : Dict String GovernancePermit}
      {p' : GovernancePolicy} : WasPending p e → boundedText purpose 160 ≠ "" →
      p'.frame = p.frame → (∀ e' ∈ p'.pendingChallenges, WasPending p e' ∧ e'.1 ≠ e.1) →
      kept.Sublist p.activePermits → p'.activePermits
        = Dict.set kept permitId (permitOf e.2 permitId (boundedText purpose 160)) →
      Change pyStr p (.confirmScope challengeId purpose now scope permitId, .answered (.confirmed
        e.2.challengeId ((permitOf e.2 permitId (boundedText purpose 160)).payload now))) p'
  | allowed {call : BreakCall} {readings : BreakReadings σ} {decision : LegalityDecision}
      {risk : StructureRiskPayload} {key : String} {t : GovernancePermit} {p' : GovernancePolicy} :
      (key, t) ∈ p.activePermits → Passes pyStr p call readings t → Spends p call.pos key t p' →
      decision.details = .permitted risk
        ({ t with authorizedPositions := insert call.pos t.authorizedPositions }.payload
          readings.authorizeNow) →
      Change pyStr p (.canBreak call readings, .decided decision) p'

section Steps

variable {pyStr : σ → String} {p p' : GovernancePolicy}

theorem allowsUnder?_of_plain {call : BreakCall} {readings : BreakReadings σ}
    {decision : LegalityDecision} (h : ∀ risk permit, decision.details ≠ .permitted risk permit)
    (permitId : String) :
    allowsUnder? permitId (.canBreak call readings, .decided decision) = none := by
  cases hdetails : decision.details with
  | permitted risk permit => exact absurd hdetails (h risk permit)
  | _ => simp only [allowsUnder?, hdetails]

theorem canBreak_change (call : BreakCall) (readings : BreakReadings σ) :
    Change pyStr p (.canBreak call readings, .decided (p.canBreak pyStr call readings).1)
      (p.canBreak pyStr call readings).2 := by
  have hcases := canBreak_cases pyStr p call readings
  generalize p.canBreak pyStr call readings = result at hcases
  cases hcases with
  | plain hkept hplain => exact .quiet rfl rfl (allowsUnder?_of_plain hplain.2) hkept
  | raised hfits hframe hpending hactive =>
      exact .raised hfits ⟨call, readings, _, _, _, rfl, rfl, rfl, hfits.id.symm⟩ hframe hpending
        hactive
  | allowed _ _ _ _ hmem hpasses hspends => exact .allowed hmem hpasses hspends rfl

theorem confirmScope_change (challengeId purpose : String) (now : Rat) (scope : Option σ)
    (permitId : String) :
    Change pyStr p (.confirmScope challengeId purpose now scope permitId,
        .answered (p.confirmScope pyStr challengeId purpose now scope permitId).1)
      (p.confirmScope pyStr challengeId purpose now scope permitId).2 := by
  have hprune := kept_prune pyStr p now scope
  unfold confirmScope
  dsimp only
  generalize p.pruneConfirmationState pyStr now scope = q at hprune ⊢
  split
  · exact .quiet rfl rfl (fun _ => rfl) hprune
  · next c hget =>
      have hmem := Dict.mem_of_get? hget
      split
      · refine .quiet rfl rfl (fun _ => rfl) ⟨hprune.frame, fun e he => ?_, hprune.active⟩
        rcases Dict.mem_of_mem_set he with rfl | he
        · exact hprune.pending _ hmem
        · exact hprune.pending e (List.mem_filter.mp he).1
      · next hpurpose =>
          refine .confirmed (hprune.pending _ hmem) hpurpose hprune.frame (fun e he => ?_)
            hprune.active rfl
          obtain ⟨he, hne⟩ := List.mem_filter.mp he
          exact ⟨hprune.pending e he, of_decide_eq_true hne⟩

theorem policyStep_change (i : PolicyInput σ) :
    Change pyStr p (i, (policyStep pyStr p i).1) (policyStep pyStr p i).2 := by
  cases i with
  | canBreak call readings => exact canBreak_change call readings
  | confirmScope challengeId purpose now scope permitId =>
      exact confirmScope_change challengeId purpose now scope permitId
  | dismissActionConfirmations actionId =>
      refine .quiet rfl rfl (fun _ => rfl) ⟨rfl, fun e he => ?_, .refl _⟩
      obtain ⟨⟨key, c⟩, hmem, hmap⟩ := List.mem_filterMap.mp he
      obtain ⟨c', hleft, rfl⟩ := Option.map_eq_some_iff.mp hmap
      refine ⟨c, hmem, ?_⟩
      unfold dismissFrom at hleft
      dsimp only at hleft
      split at hleft
      · exact Option.some.inj hleft ▸ ⟨c.actionIds, rfl⟩
      · split at hleft
        · cases hleft
        · exact ⟨_, (Option.some.inj hleft).symm⟩
  | pendingConfirmations actionId now scope =>
      exact .quiet rfl rfl (fun _ => rfl) (kept_prune pyStr p now scope)
  | recordBotPlacement pos blockType purpose bot =>
      exact .quiet rfl rfl (fun _ => rfl) ⟨rfl, fun _ he => wasPending_of_mem he, .refl _⟩
  | beginConfirmationEpoch scopeBound epoch => exact .epoch rfl rfl rfl
  | invalidateConfirmationState epoch => exact .epoch rfl rfl rfl

end Steps

/-! ## The ledger a log is -/

/-- What the log alone satisfies: a challenge is confirmed once, and no
permit is overdrawn. -/
structure Ledger (log : PolicyLog σ) : Prop where
  once : ∀ id, confirmations log id ≤ 1
  drawn : ∀ id, confirmations log id ≠ 0 → ∃ e ∈ log, e.1.challengeId? = some id
  spent : ∀ id, allowedUnder log id ≠ ∅ → ∃ e ∈ log, e.1.permitId? = some id
  bounded : ∀ e ∈ log, ∀ id permit, confirms? e = some (id, permit) →
    e.1.permitId? = some permit.permitId
      ∧ (allowedUnder log permit.permitId).card ≤ permit.maxUniqueBlocks

section Ledgers

variable {log : PolicyLog σ} {e : PolicyInput σ × PolicyOutput}

theorem confirmations_snoc (id : String) : confirmations (log ++ [e]) id
    = confirmations log id + if (confirms? e).map Prod.fst = some id then 1 else 0 := by
  rw [confirmations_append]
  congr 1
  simp only [confirmations, List.countP_cons, List.countP_nil, Nat.zero_add, decide_eq_true_eq]

theorem confirmations_silent (h : confirms? e = none) (id : String) :
    confirmations (log ++ [e]) id = confirmations log id := by
  rw [confirmations_snoc, h, if_neg (by simp), Nat.add_zero]

theorem allowedUnder_silent {permitId : String} (h : allowsUnder? permitId e = none) :
    allowedUnder (log ++ [e]) permitId = allowedUnder log permitId := by
  rw [allowedUnder_append, h]

theorem exists_mem_snoc {P : PolicyInput σ × PolicyOutput → Prop} (h : ∃ e' ∈ log, P e') :
    ∃ e' ∈ log ++ [e], P e' := by
  obtain ⟨e', hmem, hP⟩ := h
  exact ⟨e', List.mem_append_left _ hmem, hP⟩

/-- An entry that neither confirms nor allows leaves the ledger as it is. -/
theorem Ledger.silent (h : Ledger log) (hconfirms : confirms? e = none)
    (hallows : ∀ permitId, allowsUnder? permitId e = none) : Ledger (log ++ [e]) where
  once id := by
    rw [confirmations_silent hconfirms]
    exact h.once id
  drawn id hid := by
    rw [confirmations_silent hconfirms] at hid
    exact exists_mem_snoc (h.drawn id hid)
  spent id hid := by
    rw [allowedUnder_silent (hallows id)] at hid
    exact exists_mem_snoc (h.spent id hid)
  bounded e' he' id permit hpermit := by
    rw [allowedUnder_silent (hallows _)]
    rcases List.mem_append.mp he' with he' | he'
    · exact h.bounded e' he' id permit hpermit
    · rw [List.mem_singleton.mp he', hconfirms] at hpermit
      cases hpermit

/-- A confirmation opens an account with a new permit. -/
theorem Ledger.confirmed (h : Ledger log) {id : String} {permit : PermitPayload}
    (hconfirms : confirms? e = some (id, permit)) (hallows : ∀ permitId, allowsUnder? permitId e = none)
    (hid : confirmations log id = 0) (hraised : ∃ e' ∈ log, e'.1.challengeId? = some id)
    (hpermit : e.1.permitId? = some permit.permitId)
    (hnew : ∀ e' ∈ log, e'.1.permitId? ≠ some permit.permitId) : Ledger (log ++ [e]) where
  once id' := by
    rw [confirmations_snoc, hconfirms]
    by_cases heq : id = id'
    · rw [← heq, hid, if_pos (by rfl)]
    · rw [if_neg (by simpa using heq)]
      exact h.once id'
  drawn id' hid' := by
    rw [confirmations_snoc, hconfirms] at hid'
    by_cases heq : id = id'
    · exact heq ▸ exists_mem_snoc hraised
    · rw [if_neg (by simpa using heq)] at hid'
      exact exists_mem_snoc (h.drawn id' hid')
  spent id' hid' := by
    rw [allowedUnder_silent (hallows id')] at hid'
    exact exists_mem_snoc (h.spent id' hid')
  bounded e' he' id' permit' hpermit' := by
    rw [allowedUnder_silent (hallows _)]
    rcases List.mem_append.mp he' with he' | he'
    · exact h.bounded e' he' id' permit' hpermit'
    · obtain rfl := List.mem_singleton.mp he'
      obtain rfl := (Prod.mk.inj (Option.some.inj (hconfirms.symm.trans hpermit'))).2
      have hempty : allowedUnder log permit.permitId = ∅ := by
        by_contra hne
        obtain ⟨e'', hmem, hdrawn⟩ := h.spent _ hne
        exact hnew e'' hmem hdrawn
      exact ⟨hpermit, by simp [hempty]⟩

/-- A break under a permit with room for it is booked. -/
theorem Ledger.allowed (h : Ledger log) {permitId : String} {pos : Position}
    (hconfirms : confirms? e = none)
    (hallows : ∀ id, allowsUnder? id e = if permitId = id then some pos else none)
    (hdrawn : ∃ e' ∈ log, e'.1.permitId? = some permitId)
    (hroom : ∀ e' ∈ log, ∀ id permit, confirms? e' = some (id, permit) →
      permit.permitId = permitId →
      pos ∈ allowedUnder log permitId ∨ (allowedUnder log permitId).card < permit.maxUniqueBlocks) :
    Ledger (log ++ [e]) where
  once id := by
    rw [confirmations_silent hconfirms]
    exact h.once id
  drawn id hid := by
    rw [confirmations_silent hconfirms] at hid
    exact exists_mem_snoc (h.drawn id hid)
  spent id hid := by
    by_cases heq : permitId = id
    · exact heq ▸ exists_mem_snoc hdrawn
    · rw [allowedUnder_silent (by rw [hallows, if_neg heq])] at hid
      exact exists_mem_snoc (h.spent id hid)
  bounded e' he' id permit hpermit := by
    rcases List.mem_append.mp he' with he' | he'
    · obtain ⟨hdraw, hcard⟩ := h.bounded e' he' id permit hpermit
      refine ⟨hdraw, ?_⟩
      by_cases heq : permitId = permit.permitId
      · rw [allowedUnder_append, hallows, if_pos heq]
        dsimp only
        rcases hroom e' he' id permit hpermit heq.symm with hin | hlt
        · rw [heq] at hin
          rw [Finset.insert_eq_of_mem hin]
          exact hcard
        · rw [heq] at hlt
          exact (Finset.card_insert_le _ _).trans hlt
      · rw [allowedUnder_silent (by rw [hallows, if_neg heq])]
        exact hcard
    · rw [List.mem_singleton.mp he', hconfirms] at hpermit
      cases hpermit

end Ledgers

/-! ## The invariant -/

/-- The entry of `pendingChallenges` was raised, and not confirmed yet. -/
def PendingOk (pyStr : σ → String) (p : GovernancePolicy) (log : PolicyLog σ)
    (e : String × GovernanceChallenge) : Prop :=
  e.1 = e.2.challengeId ∧ RaisedIn pyStr p log e.2 ∧ confirmations log e.1 = 0

/-- The entry of `activePermits` was granted, and has counted every
position. -/
structure ActiveOk (pyStr : σ → String) (p : GovernancePolicy) (log : PolicyLog σ)
    (e : String × GovernancePermit) : Prop where
  key : e.1 = e.2.permitId
  granted : GrantedIn pyStr p log e.2
  counted : e.2.authorizedPositions = allowedUnder log e.1
  bound : ∀ e' ∈ log, ∀ id permit, confirms? e' = some (id, permit) → permit.permitId = e.1 →
    permit.maxUniqueBlocks = e.2.maxUniqueBlocks

structure Authority (pyStr : σ → String) (log : PolicyLog σ) (p : GovernancePolicy) : Prop where
  ledger : Ledger log
  pending : ∀ e ∈ p.pendingChallenges, PendingOk pyStr p log e
  active : ∀ e ∈ p.activePermits, ActiveOk pyStr p log e
  keys : (p.activePermits.map Prod.fst).Nodup

section Invariant

variable {pyStr : σ → String} {p p' : GovernancePolicy} {log : PolicyLog σ}
variable {e : PolicyInput σ × PolicyOutput}

theorem RaisedIn.snoc {c : GovernanceChallenge} (hframe : p'.frame = p.frame)
    (hepoch : e.1.startsEpoch = false) (h : RaisedIn pyStr p log c) :
    RaisedIn pyStr p' (log ++ [e]) c := by
  obtain ⟨before, call, readings, decision, after, rfl, hraises, hafter, hfits⟩ := h
  refine ⟨before, call, readings, decision, after ++ [e], by simp, hraises, ?_, hfits.congr hframe⟩
  rw [List.forall_mem_append]
  exact ⟨hafter, by simpa using hepoch⟩

theorem RaisedIn.congr {c : GovernanceChallenge} (hframe : p'.frame = p.frame)
    (h : RaisedIn pyStr p log c) : RaisedIn pyStr p' log c := by
  obtain ⟨before, call, readings, decision, after, hlog, hraises, hafter, hfits⟩ := h
  exact ⟨before, call, readings, decision, after, hlog, hraises, hafter, hfits.congr hframe⟩

theorem RaisedIn.marked {c c' : GovernanceChallenge} (hmarked : Marked c c')
    (h : RaisedIn pyStr p log c) : RaisedIn pyStr p log c' := by
  obtain ⟨before, call, readings, decision, after, hlog, hraises, hafter, hfits⟩ := h
  obtain ⟨actionIds, rfl⟩ := hmarked
  exact ⟨before, call, readings, decision, after, hlog, hraises, hafter,
    ⟨hfits.id, hfits.bot, hfits.context, hfits.blockTypes, hfits.region, hfits.expiresAt,
      hfits.epoch⟩⟩

theorem RaisedIn.drawn {c : GovernanceChallenge} (h : RaisedIn pyStr p log c) :
    ∃ e ∈ log, e.1.challengeId? = some c.challengeId := by
  obtain ⟨before, call, readings, decision, after, rfl, -, -, hfits⟩ := h
  exact ⟨_, List.mem_append_right _ List.mem_cons_self, congrArg some hfits.id.symm⟩

theorem GrantedIn.snoc {t : GovernancePermit} (hframe : p'.frame = p.frame)
    (hepoch : e.1.startsEpoch = false) (h : GrantedIn pyStr p log t) :
    GrantedIn pyStr p' (log ++ [e]) t := by
  obtain ⟨before, challengeId, purpose, now, scope, permitId, after, c, positions, rfl, hraised,
    hpurpose, hafter, ht⟩ := h
  refine ⟨before, challengeId, purpose, now, scope, permitId, after ++ [e], c, positions, by simp,
    hraised.congr hframe, hpurpose, ?_, ht⟩
  rw [List.forall_mem_append]
  exact ⟨hafter, by simpa using hepoch⟩

theorem GrantedIn.drawn {t : GovernancePermit} (h : GrantedIn pyStr p log t) :
    ∃ e ∈ log, e.1.permitId? = some t.permitId := by
  obtain ⟨before, challengeId, purpose, now, scope, permitId, after, c, positions, rfl, -, -, -,
    rfl⟩ := h
  exact ⟨_, List.mem_append_right _ List.mem_cons_self, rfl⟩

theorem Authority.of_was {e : String × GovernanceChallenge} (h : Authority pyStr log p)
    (he : WasPending p e) : PendingOk pyStr p log e := by
  obtain ⟨c, hmem, hmarked⟩ := he
  obtain ⟨hkey, hraised, hunused⟩ := h.pending _ hmem
  refine ⟨hkey.trans ?_, hraised.marked hmarked, hunused⟩
  obtain ⟨actionIds, hactions⟩ := hmarked
  rw [hactions]

theorem PendingOk.snoc {entry : String × GovernanceChallenge} (h : PendingOk pyStr p log entry)
    (hframe : p'.frame = p.frame) (hepoch : e.1.startsEpoch = false)
    (hother : (confirms? e).map Prod.fst ≠ some entry.1) :
    PendingOk pyStr p' (log ++ [e]) entry := by
  obtain ⟨hkey, hraised, hunused⟩ := h
  exact ⟨hkey, hraised.snoc hframe hepoch, by rw [confirmations_snoc, hunused, if_neg hother]⟩

theorem ActiveOk.snoc {entry : String × GovernancePermit} (h : ActiveOk pyStr p log entry)
    (hframe : p'.frame = p.frame) (hepoch : e.1.startsEpoch = false)
    (hallows : allowsUnder? entry.1 e = none)
    (hother : ∀ id permit, confirms? e = some (id, permit) → permit.permitId ≠ entry.1) :
    ActiveOk pyStr p' (log ++ [e]) entry where
  key := h.key
  granted := h.granted.snoc hframe hepoch
  counted := by rw [allowedUnder_silent hallows, h.counted]
  bound e' he' id permit hconfirms hpermit := by
    rcases List.mem_append.mp he' with he' | he'
    · exact h.bound e' he' id permit hconfirms hpermit
    · rw [List.mem_singleton.mp he'] at hconfirms
      exact absurd hpermit (hother id permit hconfirms)

theorem allowsUnder?_done (permitId : String) (i : PolicyInput σ) :
    allowsUnder? permitId (i, .done) = none := by
  cases i <;> rfl

theorem Authority.confirmed {challengeId purpose : String} {now : Rat} {scope : Option σ}
    {permitId : String} {entry : String × GovernanceChallenge}
    {kept : Dict String GovernancePermit} (h : Authority pyStr log p)
    (hfresh : ∀ e' ∈ log, e'.1.permitId? ≠ some permitId) (hwas : WasPending p entry)
    (hpurpose : boundedText purpose 160 ≠ "") (hframe : p'.frame = p.frame)
    (hpending : ∀ e' ∈ p'.pendingChallenges, WasPending p e' ∧ e'.1 ≠ entry.1)
    (hkept : kept.Sublist p.activePermits) (hactive : p'.activePermits
      = Dict.set kept permitId (permitOf entry.2 permitId (boundedText purpose 160)))
    (he : e = (.confirmScope challengeId purpose now scope permitId, .answered (.confirmed
      entry.2.challengeId ((permitOf entry.2 permitId (boundedText purpose 160)).payload now)))) :
    Authority pyStr (log ++ [e]) p' := by
  obtain ⟨hkey, hraised, hunused⟩ := h.of_was hwas
  have hconfirms : confirms? e = some (entry.2.challengeId,
      (permitOf entry.2 permitId (boundedText purpose 160)).payload now) := by rw [he]; rfl
  have hallows : ∀ id, allowsUnder? id e = none := fun id => by rw [he]; rfl
  have hepoch : e.1.startsEpoch = false := by rw [he]; rfl
  have hold : ∀ entry' ∈ p.activePermits, entry'.1 ≠ permitId := by
    rintro entry' he' rfl
    obtain ⟨e', hmem, hdrawn⟩ := (h.active entry' he').granted.drawn
    rw [← (h.active entry' he').key] at hdrawn
    exact hfresh e' hmem hdrawn
  have hunspent : allowedUnder log permitId = ∅ := by
    by_contra hne
    obtain ⟨e', hmem, hdrawn⟩ := h.ledger.spent permitId hne
    exact hfresh e' hmem hdrawn
  refine ⟨h.ledger.confirmed hconfirms hallows (hkey ▸ hunused) hraised.drawn
    (by rw [he]; rfl) hfresh, fun entry' he' => ?_, fun entry' he' => ?_, ?_⟩
  · obtain ⟨hwas', hne⟩ := hpending entry' he'
    refine (h.of_was hwas').snoc hframe hepoch ?_
    simpa [hconfirms, ← hkey] using Ne.symm hne
  · rw [hactive] at he'
    rcases Dict.mem_of_mem_set he' with rfl | he'
    · refine ⟨rfl, ⟨log, challengeId, purpose, now, scope, permitId, [], entry.2, ∅, by rw [he],
        hraised.congr hframe, hpurpose, by simp, rfl⟩, ?_, ?_⟩
      · rw [allowedUnder_silent (hallows _), hunspent]
        rfl
      · intro e' he' id permit hpermit hid
        rcases List.mem_append.mp he' with he' | he'
        · have hdrawn := (h.ledger.bounded e' he' id permit hpermit).1
          rw [hid] at hdrawn
          exact absurd hdrawn (hfresh e' he')
        · rw [List.mem_singleton.mp he', hconfirms] at hpermit
          obtain ⟨-, rfl⟩ := Prod.mk.inj (Option.some.inj hpermit)
          rfl
    · have hmem := hkept.subset he'
      refine (h.active entry' hmem).snoc hframe hepoch (hallows _) ?_
      intro id permit hpermit hid
      rw [hconfirms] at hpermit
      obtain ⟨-, rfl⟩ := Prod.mk.inj (Option.some.inj hpermit)
      exact hold entry' hmem hid.symm
  · rw [hactive]
    exact Dict.nodup_set (h.keys.sublist (hkept.map _)) _ _

theorem Authority.allowed {call : BreakCall} {readings : BreakReadings σ}
    {decision : LegalityDecision} {risk : StructureRiskPayload} {key : String}
    {t : GovernancePermit} (h : Authority pyStr log p) (hmem : (key, t) ∈ p.activePermits)
    (hpasses : Passes pyStr p call readings t) (hspends : Spends p call.pos key t p')
    (hdetails : decision.details = .permitted risk
      ({ t with authorizedPositions := insert call.pos t.authorizedPositions }.payload
        readings.authorizeNow)) (he : e = (.canBreak call readings, .decided decision)) :
    Authority pyStr (log ++ [e]) p' := by
  have hok := h.active _ hmem
  have hconfirms : confirms? e = none := by rw [he]; rfl
  have hepoch : e.1.startsEpoch = false := by rw [he]; rfl
  have hallows : ∀ id, allowsUnder? id e = if key = id then some call.pos else none := by
    intro id
    simp only [he, allowsUnder?, hdetails, GovernancePermit.payload]
    rw [← show key = t.permitId from hok.key]
  have hdrawn : ∃ e' ∈ log, e'.1.permitId? = some key := by
    obtain ⟨e', he', hdrawn⟩ := hok.granted.drawn
    exact ⟨e', he', hdrawn.trans (congrArg some hok.key.symm)⟩
  have hbooked : Ledger (log ++ [e]) := by
    refine h.ledger.allowed hconfirms hallows hdrawn fun e' he' id permit hpermit hid => ?_
    rw [hok.bound e' he' id permit hpermit hid, ← hok.counted]
    exact hpasses.room
  obtain ⟨kept, hkept, hactive⟩ := hspends.active
  have hkeptKeys : (kept.map Prod.fst).Nodup := h.keys.sublist (hkept.map _)
  refine ⟨hbooked, fun entry hentry => ?_, fun entry hentry => ?_, ?_⟩
  · exact (h.of_was (hspends.pending entry hentry)).snoc hspends.frame hepoch (by simp [hconfirms])
  · rw [hactive] at hentry
    rcases Dict.mem_set_cases hkeptKeys hentry with rfl | ⟨hentry, hne⟩
    · refine ⟨hok.key, ?_, ?_, ?_⟩
      · obtain ⟨before, challengeId, purpose, now, scope, permitId, after, c, positions, hlog,
          hraised, hpurpose, hafter, ht⟩ := hok.granted.snoc hspends.frame hepoch
        refine ⟨before, challengeId, purpose, now, scope, permitId, after, c,
          insert call.pos t.authorizedPositions, hlog, hraised, hpurpose, hafter, ?_⟩
        dsimp only at ht ⊢
        rw [ht]
      · rw [allowedUnder_append, hallows, if_pos rfl, ← hok.counted]
      · intro e' he' id permit hpermit hid
        rcases List.mem_append.mp he' with he' | he'
        · exact hok.bound e' he' id permit hpermit hid
        · rw [List.mem_singleton.mp he', hconfirms] at hpermit
          cases hpermit
    · exact (h.active entry (hkept.subset hentry)).snoc hspends.frame hepoch
        (by rw [hallows, if_neg (Ne.symm hne)]) (by simp [hconfirms])
  · rw [hactive]
    exact Dict.nodup_set hkeptKeys _ _

/-- One step keeps the invariant. -/
theorem Authority.step (h : Authority pyStr log p) (hfresh : FreshDraws log p e.1)
    (hchange : Change pyStr p e p') : Authority pyStr (log ++ [e]) p' := by
  cases hchange with
  | epoch hepoch hpending hactive =>
      exact ⟨h.ledger.silent rfl (allowsUnder?_done · _), by simp [hpending], by simp [hactive],
        by simp [hactive]⟩
  | quiet hepoch hconfirms hallows hkept =>
      refine ⟨h.ledger.silent hconfirms hallows, fun entry he => ?_, fun entry he => ?_,
        h.keys.sublist (hkept.active.map _)⟩
      · exact (h.of_was (hkept.pending entry he)).snoc hkept.frame hepoch (by simp [hconfirms])
      · exact (h.active entry (hkept.active.subset he)).snoc hkept.frame hepoch (hallows _)
          (by simp [hconfirms])
  | @raised call readings decision c p' hfits hraises hframe hpending hactive =>
      have hallows : ∀ permitId, allowsUnder? permitId
          (PolicyInput.canBreak call readings, PolicyOutput.decided decision) = none := by
        obtain ⟨_, _, _, risk, challenge, heq, hdetails, -, -⟩ := hraises
        obtain ⟨-, heq⟩ := Prod.mk.inj heq
        cases heq
        exact allowsUnder?_of_plain (by simp [hdetails])
      refine ⟨h.ledger.silent rfl hallows, fun entry he => ?_, fun entry he => ?_,
        h.keys.sublist (hactive.map _)⟩
      · rcases hpending entry he with he | rfl
        · exact (h.of_was he).snoc hframe rfl (by simp [confirms?])
        · refine ⟨hfits.id.symm, ⟨log, call, readings, decision, [], rfl, hraises, by simp,
            hfits.congr hframe⟩, ?_⟩
          rw [confirmations_silent rfl]
          by_contra hused
          obtain ⟨e', hmem, hdrawn⟩ := h.ledger.drawn _ hused
          exact hfresh.1 _ rfl e' hmem hdrawn
      · exact (h.active entry (hactive.subset he)).snoc hframe rfl (hallows _) (by simp [confirms?])
  | confirmed hwas hpurpose hframe hpending hkept hactive =>
      exact h.confirmed (hfresh.2 _ rfl) hwas hpurpose hframe hpending hkept hactive rfl
  | allowed hmem hpasses hspends hdetails => exact h.allowed hmem hpasses hspends hdetails rfl

end Invariant

/-! ## Confirmed breaks -/

theorem authority_of_run {pyStr : σ → String} {naturalRegions protectedRegions : List Region}
    {botPlacements : List BotPlacement} {assessed requireStructureAssessment : Bool}
    {botName : Option String} {ttl : Rat} {radius verticalRadius : Int} {epoch : String}
    {log : PolicyLog σ} {p : GovernancePolicy}
    (hrun : Run (policyStep pyStr) FreshDraws (init naturalRegions protectedRegions botPlacements
      assessed requireStructureAssessment botName ttl radius verticalRadius epoch) log p) :
    Authority pyStr log p := by
  refine hrun.invariant (P := fun log p => Authority pyStr log p) ?_ ?_
  · refine ⟨⟨?_, ?_, ?_, ?_⟩, ?_, ?_, ?_⟩ <;> simp [confirmations, allowedUnder, init]
  · intro log p i _ hfresh h
    exact h.step hfresh (policyStep_change i)

/-- What a confirmed break shares with the break that raised the challenge. -/
structure SameBreak (pyStr : σ → String) (p : GovernancePolicy) (raised : BreakCall)
    (raisedReadings : BreakReadings σ) (call : BreakCall) (readings : BreakReadings σ) : Prop where
  bot : actorOf call.bot p.botName = actorOf raised.bot p.botName
  context : call.context = raised.context
  blockType : normalizeBlockType call.blockType = normalizeBlockType raised.blockType
  near : |call.pos.1 - raised.pos.1|
      ≤ max p.confirmationRadius (confirmationHorizontalRadius raised.context)
    ∧ |call.pos.2.1 - raised.pos.2.1|
      ≤ max p.confirmationVerticalRadius (MineBot.confirmationVerticalRadius raised.context)
    ∧ |call.pos.2.2 - raised.pos.2.2|
      ≤ max p.confirmationRadius (confirmationHorizontalRadius raised.context)
  scope : p.scopeText pyStr readings.authorizeScopes.2
    = p.scopeText pyStr raisedReadings.pendingScopes.2
  live : readings.authorizeNow - raisedReadings.pendingNow < p.confirmationTtl

/-- The permit comes from a challenge that such a break raised in the
current epoch, confirmed with a purpose. -/
def Backed (pyStr : σ → String) (p : GovernancePolicy) (log : PolicyLog σ) (call : BreakCall)
    (readings : BreakReadings σ) (permitId : String) : Prop :=
  ∃ before raised raisedReadings decision between challengeId purpose now scope permit after,
    log = before ++ (.canBreak raised raisedReadings, .decided decision) :: (between
      ++ (.confirmScope challengeId purpose now scope permitId,
        .answered (.confirmed raisedReadings.challengeId permit)) :: after)
    ∧ Raises (.canBreak raised raisedReadings, .decided decision) raisedReadings.challengeId
    ∧ (∃ c ∈ purpose.toList, isPySpace c = false)
    ∧ (∀ e ∈ between ++ after, e.1.startsEpoch = false)
    ∧ SameBreak pyStr p raised raisedReadings call readings

section Backing

variable {pyStr : σ → String} {p : GovernancePolicy} {log : PolicyLog σ}

theorem abs_sub_le_of_between {x y r : Int} (h : y - r ≤ x) (h' : x ≤ y + r) : |x - y| ≤ r :=
  abs_le.mpr ⟨by omega, by omega⟩

theorem sameBreak_of_passes {raised call : BreakCall} {raisedReadings readings : BreakReadings σ}
    {c : GovernanceChallenge} {permitId purpose : String} {positions : Finset Position}
    (hfits : FitsRaise pyStr p raised raisedReadings c)
    (hpasses : Passes pyStr p call readings
      { permitOf c permitId purpose with authorizedPositions := positions }) :
    SameBreak pyStr p raised raisedReadings call readings := by
  obtain ⟨hexpires, -, hepoch, hbot, hcontext, htype, hregion, -⟩ := hpasses
  dsimp only [permitOf] at hexpires hepoch hbot hcontext htype hregion
  have hcontext' : raised.context = call.context := hfits.context.symm.trans hcontext
  refine ⟨hbot.symm.trans hfits.bot, hcontext'.symm, ?_, ?_, ?_, ?_⟩
  · rw [hfits.blockTypes] at htype
    exact List.mem_singleton.mp htype
  · rw [hfits.region] at hregion
    obtain ⟨⟨hx, hx'⟩, ⟨hy, hy'⟩, hz, hz'⟩ := of_decide_eq_true hregion
    exact ⟨abs_sub_le_of_between hx hx', abs_sub_le_of_between hy hy',
      abs_sub_le_of_between hz hz'⟩
  · rw [hfits.epoch] at hepoch
    exact ((String.append_right_inj _).mp hepoch).symm
  · rw [hfits.expiresAt] at hexpires
    exact sub_lt_iff_lt_add'.mpr hexpires

theorem GrantedIn.backed {t : GovernancePermit} {call : BreakCall} {readings : BreakReadings σ}
    (h : GrantedIn pyStr p log t) (hpasses : Passes pyStr p call readings t) :
    Backed pyStr p log call readings t.permitId := by
  obtain ⟨-, challengeId, purpose, now, scope, permitId, after, c, positions, rfl,
    ⟨before, raised, raisedReadings, decision, between, rfl, hraises, hbetween, hfits⟩, hpurpose,
    hafter, rfl⟩ := h
  refine ⟨before, raised, raisedReadings, decision, between, challengeId, purpose, now, scope,
    (permitOf c permitId (boundedText purpose 160)).payload now, after, ?_, hfits.id ▸ hraises, ?_, List.forall_mem_append.mpr ⟨hbetween, hafter⟩,
    sameBreak_of_passes hfits hpasses⟩
  · rw [List.append_assoc, List.cons_append, hfits.id]
    rfl
  · exact exists_of_boundedText_ne_empty hpurpose

end Backing

/-- Confirmed break authority: a break allowed by a confirmation was
assessed as ambiguous and is backed, a challenge is confirmed at most
once, and a permit never lets more positions pass than it says. -/
theorem confirmed_breaks_backed (pyStr : σ → String)
    (naturalRegions protectedRegions : List Region) (botPlacements : List BotPlacement)
    (assessed requireStructureAssessment : Bool) (botName : Option String) (ttl : Rat)
    (radius verticalRadius : Int) (epoch : String) (log : PolicyLog σ) (p : GovernancePolicy)
    (hrun : Run (policyStep pyStr) FreshDraws (init naturalRegions protectedRegions botPlacements
      assessed requireStructureAssessment botName ttl radius verticalRadius epoch) log p) :
    (∀ call readings, (p.canBreak pyStr call readings).1.reason = "allowed_governance_scope" →
      (∃ assessment, p.assessed = true ∧ readings.answer = .assesses assessment
        ∧ assessment.complete = true ∧ assessment.level = .ambiguous)
      ∧ ∃ risk permit, (p.canBreak pyStr call readings).1.details = .permitted risk permit
        ∧ Backed pyStr p log call readings permit.permitId)
    ∧ (∀ challengeId, confirmations log challengeId ≤ 1)
    ∧ ∀ e ∈ log, ∀ challengeId permit, confirms? e = some (challengeId, permit) →
        (allowedUnder log permit.permitId).card ≤ permit.maxUniqueBlocks := by
  have hauthority := authority_of_run hrun
  refine ⟨fun call readings hreason => ?_, hauthority.ledger.once, fun e he id permit hconfirms =>
    (hauthority.ledger.bounded e he id permit hconfirms).2⟩
  have hcases := canBreak_cases pyStr p call readings
  generalize p.canBreak pyStr call readings = result at hcases hreason
  cases hcases with
  | plain _ hplain => exact absurd hreason hplain.1
  | raised => exact absurd hreason (by simp)
  | allowed hassessed hanswer hcomplete hlevel hmem hpasses _ =>
      exact ⟨⟨_, hassessed, hanswer, hcomplete, hlevel⟩, _, _, rfl,
        (hauthority.active _ hmem).granted.backed hpasses⟩

/-! ## A confirmed break -/

/-- A break of dirt at `(0, 64, 0)`. -/
def dirtCall : BreakCall where
  pos := (0, 64, 0)
  blockType := "dirt"
  context := .collect
  explicitTarget := false
  bot := none
  actionId := none

/-- Dirt of ambiguous risk, at one time and one scope. -/
def dirtReadings (now : Rat) (scope : Option σ) (challengeId : String) : BreakReadings σ where
  answer := .assesses {
    pos := (0, 64, 0)
    blockType := "dirt"
    level := .ambiguous
    score := 1 / 2
    complete := true
    sampledCells := 27
    signals := []
    source := "voxel" }
  authorizeNow := now
  authorizeScopes := (scope, scope)
  pendingNow := now
  pendingScopes := (scope, scope)
  challengeId := challengeId

/-- A policy with an assessor, otherwise with the defaults. -/
def assessedPolicy : GovernancePolicy := init [] [] [] true false none 300 8 4 "e0"

/-- The dirt is confirmed in the scope. -/
def confirmDirt (scope : Option σ) : List (PolicyInput σ) :=
  [.beginConfirmationEpoch true "e1", .canBreak dirtCall (dirtReadings 0 scope "gc-1"),
    .confirmScope "gc-1" "level the floor" 1 scope "gp-1"]

theorem run_confirmDirt (pyStr : σ → String) (scope : Option σ) :
    Run (policyStep pyStr) FreshDraws assessedPolicy
      (exec (policyStep pyStr) assessedPolicy (confirmDirt scope)).1
      (exec (policyStep pyStr) assessedPolicy (confirmDirt scope)).2 := by
  have hstart : Run (policyStep pyStr) FreshDraws assessedPolicy [] assessedPolicy := .start
  have hbegin := hstart.next (.beginConfirmationEpoch true "e1")
    (by simp [FreshDraws, PolicyInput.challengeId?, PolicyInput.permitId?])
  have hraise := hbegin.next (.canBreak dirtCall (dirtReadings 0 scope "gc-1"))
    (by simp [FreshDraws, PolicyInput.challengeId?, PolicyInput.permitId?])
  exact hraise.next (.confirmScope "gc-1" "level the floor" 1 scope "gp-1")
    (by simp [FreshDraws, PolicyInput.challengeId?, PolicyInput.permitId?])

/-- Dirt that is confirmed may be broken. -/
theorem confirmed_breaks_backed_dirt :
    ∃ risk permit,
      ((exec (policyStep id) assessedPolicy (confirmDirt (some "task-1"))).2.canBreak id dirtCall
        (dirtReadings 2 (some "task-1") "gc-2")).1.details = .permitted risk permit
      ∧ Backed id (exec (policyStep id) assessedPolicy (confirmDirt (some "task-1"))).2
          (exec (policyStep id) assessedPolicy (confirmDirt (some "task-1"))).1 dirtCall
          (dirtReadings 2 (some "task-1") "gc-2") permit.permitId :=
  ((confirmed_breaks_backed id [] [] [] true false none 300 8 4 "e0" _ _
    (run_confirmDirt id (some "task-1"))).1 dirtCall (dirtReadings 2 (some "task-1") "gc-2")
      (by decide +kernel)).2

/-- `str` of an integer or a text. -/
def pyStrIntOrText : Int ⊕ String → String
  | .inl n => toString n
  | .inr text => text

/-- Scopes are compared as `str` renders them: what was confirmed in the
scope `1` is allowed in the scope `"1"`. -/
theorem confirmed_in_other_scope :
    ∃ log p, Run (policyStep pyStrIntOrText) FreshDraws assessedPolicy log p
      ∧ (p.canBreak pyStrIntOrText dirtCall (dirtReadings 2 (some (.inr "1")) "gc-2")).1.reason
        = "allowed_governance_scope"
      ∧ ∀ e ∈ log, ∀ raised raisedReadings, e.1 = .canBreak raised raisedReadings →
        raisedReadings.pendingScopes.2 ≠ some (.inr "1") := by
  refine ⟨_, _, run_confirmDirt pyStrIntOrText (some (.inl 1)), by decide +kernel, ?_⟩
  intro e he raised raisedReadings hraised
  simp only [confirmDirt, exec, List.mem_cons, List.not_mem_nil, or_false] at he
  rcases he with rfl | rfl | rfl
  · cases hraised
  · cases hraised
    simp [dirtReadings]
  · cases hraised

end GovernancePolicy

end MineBot
