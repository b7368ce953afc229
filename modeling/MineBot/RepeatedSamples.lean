import Mathlib
import MineBot.ExecutionSnapshots
import MineBot.Results
import MineBot.SampleRepeats

/-!
# Repeated samples are no progress

Each tracker of `progressSignal` sees a sample once: from the baseline it
leaves, the same sample signals nothing and leaves that baseline. So does the
count of failed path calculations, which is re-based on progress, and the phase,
which can depend on the phase before. What a snapshot knows of progress
(`Evidence`) therefore follows a machine that repeats, ticks and reads do not
move, and `Observer.Settles.insertions` applies to it.
-/

namespace MineBot

namespace ExecutionSnapshots

/-! ## A tracker sees a sample once -/

section

variable {payload : JsonObject}

theorem seeWorldEdits_again {worldEdits newest : Int} {edited : Bool}
    (h : seeWorldEdits worldEdits payload = .ok (newest, edited)) :
    seeWorldEdits newest payload = .ok (newest, false) := by
  rw [seeWorldEdits] at h ⊢
  cases hedits : items? (field payload "world_edits") with
  | none =>
      rfl
  | some edits =>
      rw [hedits] at h
      obtain ⟨indexes, hindexes, hrest⟩ := bind_eq_ok.mp h
      have hpair := Except.ok.inj hrest
      refine bind_eq_ok.mpr ⟨indexes, hindexes, congrArg Except.ok ?_⟩
      split at hpair
      · obtain ⟨rfl, -⟩ := Prod.mk.inj hpair
        exact if_neg (lt_irrefl _)
      · next hseen =>
          obtain ⟨rfl, -⟩ := Prod.mk.inj hpair
          exact if_neg hseen

theorem seeConstruction_again (maxMatching : Option Int) (payload : JsonObject) :
    seeConstruction (seeConstruction maxMatching payload).1 payload =
      ((seeConstruction maxMatching payload).1, false) := by
  simp only [seeConstruction]
  cases matchingCells? payload with
  | none => rfl
  | some matching =>
      simp only [Option.getD_some, Option.any_some, Prod.mk.injEq, Option.some.injEq]
      exact ⟨max_eq_right (le_max_left ..), decide_eq_false (not_lt.mpr (le_max_left ..))⟩

theorem seePath_again (highwater : Dict (List Json) Int) (payload : JsonObject) :
    seePath (seePath highwater payload).1 payload = ((seePath highwater payload).1, false) := by
  simp only [seePath]
  cases (field (navigationOf payload) "path_position").isInt? with
  | none => rfl
  | some index =>
      simp only [Dict.get?_set_self, Dict.set_set, Option.getD_some, Option.any_some]
      rw [max_eq_right (le_max_left ..), decide_eq_false (not_lt.mpr (le_max_left ..))]

theorem moved_self (position : Position) : moved (some position) position = false := by
  simp [moved, distance2, movementProgressBlocks]

theorem seePosition_again {floatOfText : String → Option Rat}
    {position start position' start' : Option Position} {along : Bool}
    (h : seePosition floatOfText position start payload = .ok ((position', start'), along)) :
    seePosition floatOfText position' start' payload = .ok ((position', start'), false) := by
  rw [seePosition] at h ⊢
  cases hcoordinates : coordinates? payload with
  | none => rfl
  | some coordinates =>
      rw [hcoordinates] at h
      obtain ⟨current, hcurrent, hpair⟩ := map_eq_ok.mp h
      obtain ⟨hpositions, -⟩ := Prod.mk.inj hpair
      obtain ⟨rfl, rfl⟩ := Prod.mk.inj hpositions
      refine map_eq_ok.mpr ⟨current, hcurrent, ?_⟩
      have hstart : (start.or (some current)).or (some current) = start.or (some current) := by
        cases start <;> rfl
      rw [hstart]
      by_cases hnew : (moved position current || position.isNone) = true
      · simp only [if_pos hnew, moved_self, Option.isNone_some, Bool.or_false, Bool.false_eq_true,
          if_false, Bool.false_and]
      · rw [if_neg hnew, if_neg hnew]
        have hstill := (Bool.or_eq_false_iff.mp (Bool.eq_false_of_not_eq_true hnew)).1
        rw [hstill, Bool.false_and]

theorem sameCounts_self (counts : Dict String Int) : sameCounts counts counts = true := by
  simp [sameCounts]

theorem seeInventory_again (inventory start : Option (Dict String Int)) (payload : JsonObject) :
    seeInventory (seeInventory inventory start payload).1.1
        (seeInventory inventory start payload).1.2 payload =
      ((seeInventory inventory start payload).1, false) := by
  cases hcounts : inventoryCounts? payload with
  | none => simp only [seeInventory, hcounts]
  | some counts =>
      simp only [seeInventory, hcounts, Option.isNone_some, Bool.false_eq_true, if_false,
        Option.any_some, sameCounts_self, Bool.not_true]

/-- A sample that comes again signals nothing new. -/
def quieten : Except IntError (Option Signal) → Except IntError (Option Signal)
  | .ok _ => .ok none
  | .error e => .error e

/-- **The trackers see a sample once.** -/
theorem progressSignal_again (floatOfText : String → Option Rat) (b : Baselines)
    (payload : JsonObject) :
    progressSignal floatOfText (progressSignal floatOfText b payload).2 payload =
      (quieten (progressSignal floatOfText b payload).1,
        (progressSignal floatOfText b payload).2) := by
  have hconstruction := seeConstruction_again b.maxMatching payload
  have hpath := seePath_again b.pathHighwater payload
  cases hedits : seeWorldEdits b.worldEdits payload with
  | error e => simp only [progressSignal, hedits, quieten]
  | ok edits =>
      obtain ⟨worldEdits, edited⟩ := edits
      have hedits' := seeWorldEdits_again hedits
      cases hposition : seePosition floatOfText b.position b.startPosition payload with
      | error e => simp only [progressSignal, hedits, hedits', hposition, hconstruction, hpath, quieten]
      | ok positions =>
          obtain ⟨⟨position, start⟩, along⟩ := positions
          have hposition' := seePosition_again hposition
          have hinventory := seeInventory_again b.inventory b.startInventory payload
          simp only [progressSignal, hedits, hedits', hposition, hposition', hconstruction, hpath,
            hinventory, quieten]
          rfl

end

/-! ## So do the failure counter and the phase -/

theorem PathFailures.rebase_none (f : PathFailures) : f.rebase none = f := rfl

theorem PathFailures.see_again (f : PathFailures) (signal : Option Signal) (payload : JsonObject) :
    ((f.see payload).rebase signal).see payload = (f.see payload).rebase signal := by
  cases hfailed : calcFailed? payload with
  | none => cases signal <;> simp [PathFailures.see, PathFailures.rebase, hfailed]
  | some failed => cases signal <;> simp [PathFailures.see, PathFailures.rebase, hfailed]

theorem failingPhase_again (failing : Int) (phase : Option String) :
    failingPhase failing (failingPhase failing phase) = failingPhase failing phase := by
  by_cases h : (2 ≤ failing && (phase = none || phase = some "calculating_path")) = true
  · have hnamed : failingPhase failing phase = some "path_calculation_failing" := if_pos h
    rw [hnamed, failingPhase]
    exact ite_self _
  · have hkept : failingPhase failing phase = phase := if_neg h
    rw [hkept, hkept]

/-- The phase before is kept, or does not matter. -/
theorem phaseOf_cases (payload : JsonObject) :
    (∀ previous, phaseOf payload previous = previous) ∨
      ∀ previous previous', phaseOf payload previous = phaseOf payload previous' := by
  by_cases h : ((field payload "lite").truthy && navigationOf payload = []
      && activeProcesses payload = []) = true
  · exact .inl fun previous => if_pos h
  · refine .inr fun previous previous' => ?_
    rw [phaseOf, if_neg h, phaseOf, if_neg h]

theorem nextPhase_again (payload : JsonObject) (failing : Int) (previous : Option String) :
    nextPhase payload failing (nextPhase payload failing previous) =
      nextPhase payload failing previous := by
  rw [nextPhase]
  cases hexplicit : explicitPhase? payload with
  | some phase => rw [nextPhase, hexplicit, Option.some_or, Option.some_or]
  | none =>
      rw [Option.none_or]
      rcases phaseOf_cases payload with hkept | hsame
      · rw [hkept, nextPhase, hexplicit, Option.none_or, failingPhase_again]
      · rw [hsame _ previous, nextPhase, hexplicit, Option.none_or]

/-! ## What is known of progress -/

/-- Of an operation, what its progress depends on. -/
structure Evidence where
  operationId : String
  state : OperationState
  phase : Option String
  baselines : Baselines
  pathFailures : PathFailures
  inventoryDelta : Option Json
  failedPathCalculations : Option Json

def Operation.evidence (op : Operation) : Evidence where
  operationId := op.operationId
  state := op.state
  phase := op.phase
  baselines := op.baselines
  pathFailures := op.pathFailures
  inventoryDelta := op.facts.get? "inventory_delta"
  failedPathCalculations := op.facts.get? "failed_path_calculations"

def OperationState.started (state : OperationState) : OperationState :=
  if state = .accepted then .running else state

section

variable (floatOfText : String → Option Rat)

/-- What a sample adds to the evidence. -/
def Evidence.see (e : Evidence) (payload : JsonObject) :
    Except IntError (Option Signal) × Evidence :=
  let failures := e.pathFailures.see payload
  match progressSignal floatOfText e.baselines payload with
  | (.error err, baselines) =>
      (.error err, { e with state := e.state.started, baselines, pathFailures := failures })
  | (.ok signal, baselines) =>
      let failures := failures.rebase signal
      (.ok signal,
        { e with
          state := e.state.started
          phase := nextPhase payload failures.failing e.phase
          baselines
          pathFailures := failures
          inventoryDelta := baselines.deltaFact?.or e.inventoryDelta
          failedPathCalculations := failures.fact? })

theorem OperationState.started_again (state : OperationState) :
    state.started.started = state.started := by
  cases state <;> rfl

/-- **A sample that comes again adds nothing.** -/
theorem Evidence.see_again (e : Evidence) (payload : JsonObject) :
    (e.see floatOfText payload).2.see floatOfText payload =
      (quieten (e.see floatOfText payload).1, (e.see floatOfText payload).2) := by
  have hsignal := progressSignal_again floatOfText e.baselines payload
  cases hseen : progressSignal floatOfText e.baselines payload with
  | mk outcome baselines =>
      rw [hseen] at hsignal
      cases outcome with
      | error err =>
          have hfailures := e.pathFailures.see_again none payload
          simp only [PathFailures.rebase_none] at hfailures
          simp only [Evidence.see, hseen, hsignal, quieten, hfailures,
            OperationState.started_again]
      | ok signal =>
          have hfailures := e.pathFailures.see_again signal payload
          have hdelta : baselines.deltaFact?.or (baselines.deltaFact?.or e.inventoryDelta) =
              baselines.deltaFact?.or e.inventoryDelta := by
            cases baselines.deltaFact? <;> rfl
          simp only [Evidence.see, hseen, hsignal, quieten, hfailures, hdelta,
            OperationState.started_again, nextPhase_again, PathFailures.rebase_none]

end

/-! ## What the facts keep of it -/

section

variable {key : String} {facts : JsonObject}

theorem get?_setSome_self (key : String) (value : Option Json) (facts : JsonObject) :
    (setSome key value facts).get? key = value.or (facts.get? key) := by
  cases value with
  | none => rfl
  | some value => exact Dict.get?_set_self facts key value

theorem get?_setSome_of_ne {key' : String} (h : key ≠ key') (value : Option Json) :
    (setSome key' value facts).get? key = facts.get? key := by
  cases value with
  | none => rfl
  | some value => exact Dict.get?_set_of_ne facts h value

theorem get?_setOrPop_self (key : String) (value : Option Json) (facts : JsonObject) :
    (setOrPop key value facts).get? key = value := by
  cases value with
  | none => exact (Dict.get?_pop facts key key).trans (if_pos rfl)
  | some value => exact Dict.get?_set_self facts key value

theorem get?_setOrPop_of_ne {key' : String} (h : key ≠ key') (value : Option Json) :
    (setOrPop key' value facts).get? key = facts.get? key := by
  cases value with
  | none => exact (Dict.get?_pop facts key' key).trans (if_neg h)
  | some value => exact Dict.get?_set_of_ne facts h value

theorem get?_pick_of_not_mem {fields : JsonObject} {keys : List String} (h : key ∉ keys) :
    Dict.get? (pick fields keys) key = none := by
  refine Dict.get?_eq_none fun hmem => h ?_
  obtain ⟨entry, hentry, rfl⟩ := List.mem_map.mp hmem
  obtain ⟨key, hkey, hget⟩ := List.mem_filterMap.mp hentry
  obtain ⟨value, -, rfl⟩ := Option.map_eq_some_iff.mp hget
  exact hkey

/-- The facts about a vital are three. -/
theorem get?_mergeVital (payload : JsonObject) (s : JsonObject × Dict String Rat) {vital : String}
    (hprevious : key ≠ vital ++ "_previous") (hhurt : key ≠ "recently_hurt") :
    (mergeVital payload s vital).1.get? key = s.1.get? key := by
  simp only [mergeVital]
  split
  · rfl
  · simp only
    split
    · rfl
    · split
      · split
        · rw [Dict.get?_set_of_ne _ hhurt, Dict.get?_set_of_ne _ hprevious]
        · rw [Dict.get?_pop, if_neg hhurt, Dict.get?_set_of_ne _ hprevious]
      · rw [Dict.get?_set_of_ne _ hprevious]

theorem get?_mergeVitals (payload : JsonObject) (names : List String)
    (hprevious : ∀ vital ∈ names, key ≠ vital ++ "_previous") (hhurt : key ≠ "recently_hurt")
    (s : JsonObject × Dict String Rat) :
    (names.foldl (mergeVital payload) s).1.get? key = s.1.get? key := by
  induction names generalizing s with
  | nil => rfl
  | cons vital names ih =>
      rw [List.foldl_cons, ih fun vital hmem => hprevious vital (List.mem_cons_of_mem _ hmem)]
      exact get?_mergeVital payload s (hprevious vital List.mem_cons_self) hhurt

theorem get?_mergeEntities (payload : JsonObject) (h : key ∉ entityKeys) :
    (mergeEntities payload facts).get? key = facts.get? key := by
  have hlists : Dict.get? (entityLists payload) key = none := by
    refine Dict.get?_eq_none fun hmem => h ?_
    obtain ⟨entry, hentry, rfl⟩ := List.mem_map.mp hmem
    obtain ⟨key, hkey, hget⟩ := List.mem_filterMap.mp hentry
    obtain ⟨entities, -, rfl⟩ := Option.map_eq_some_iff.mp hget
    exact hkey
  simp only [mergeEntities]
  split
  · rfl
  · rw [Dict.get?_update_of_get?_none _ _ hlists, Dict.get?_foldl_pop, if_neg h]

theorem get?_mergeProcesses (payload : JsonObject) (h : key ≠ "processes") :
    (mergeProcesses payload facts).get? key = facts.get? key := by
  rw [mergeProcesses]
  split
  · exact Dict.get?_set_of_ne _ h _
  · rfl

theorem mergeFacts_delta (op : Operation) (payload : JsonObject) :
    (op.mergeFacts payload).facts.get? "inventory_delta" =
      op.baselines.deltaFact?.or (op.facts.get? "inventory_delta") := by
  simp only [Operation.mergeFacts, mergeInventory]
  rw [get?_setOrPop_of_ne (by decide), get?_setSome_of_ne (by decide),
    get?_setSome_of_ne (by decide), get?_setSome_self, get?_setSome_of_ne (by decide),
    get?_setSome_of_ne (by decide), get?_mergeProcesses payload (by decide),
    get?_mergeEntities payload (by decide),
    Dict.get?_update_of_get?_none _ _ (get?_pick_of_not_mem (by decide)),
    get?_mergeVitals payload vitalNames (by decide) (by decide), get?_setSome_of_ne (by decide),
    get?_setSome_of_ne (by decide), get?_setSome_of_ne (by decide), Dict.get?_set_of_ne _ (by decide)]

theorem mergeFacts_failed (op : Operation) (payload : JsonObject) :
    (op.mergeFacts payload).facts.get? "failed_path_calculations" = op.pathFailures.fact? :=
  get?_setOrPop_self ..

end

/-! ## The calls move the evidence as it says -/

theorem evidence_markFactFrame (op : Operation) (clock : Clock) :
    (op.markFactFrame clock).evidence = op.evidence := by
  rw [Operation.markFactFrame]
  split <;> rfl

theorem evidence_enrich (op : Operation) (facts : JsonObject) (source : String) (clock : Clock) :
    (op.enrich facts source clock).evidence = op.evidence := by
  simp only [Operation.enrich]
  split
  · rfl
  · rw [evidence_markFactFrame]
    simp only [Operation.evidence, Dict.get?_set_of_ne op.facts
      (by decide : "inventory_delta" ≠ "bounded_reads"), Dict.get?_set_of_ne op.facts
      (by decide : "failed_path_calculations" ≠ "bounded_reads")]

section

variable (floatOfText : String → Option Rat)

theorem evidence_observe (op : Operation) (payload : JsonObject) (clock : Clock) :
    (op.observe floatOfText payload clock).1 = (op.evidence.see floatOfText payload).1 ∧
      (op.observe floatOfText payload clock).2.evidence =
        (op.evidence.see floatOfText payload).2 := by
  cases hseen : progressSignal floatOfText op.baselines payload with
  | mk outcome baselines =>
      have hreceived : progressSignal floatOfText (op.receive payload clock).baselines payload =
          (outcome, baselines) := hseen
      have hevidence : progressSignal floatOfText op.evidence.baselines payload =
          (outcome, baselines) := hseen
      cases outcome with
      | error err =>
          simp only [Operation.observe, hreceived, Evidence.see, hevidence]
          exact ⟨trivial, rfl⟩
      | ok signal =>
          simp only [Operation.observe, hreceived, Evidence.see, hevidence, evidence_markFactFrame,
            true_and]
          rw [Operation.evidence, mergeFacts_delta, mergeFacts_failed]
          cases signal <;> rfl

/-- The evidence of the operation, where it is the one and not over. -/
def seeLive (operationId : String) (e : Option Evidence) (payload : JsonObject) :
    Except IntError (Option Signal) × Option Evidence :=
  match e.filter fun e => e.operationId = operationId && !e.state.terminal with
  | none => (.ok none, e)
  | some e => ((e.see floatOfText payload).1, some (e.see floatOfText payload).2)

def Snapshots.evidence (s : Snapshots) : Option Evidence := s.current.map Operation.evidence

theorem live?_evidence (s : Snapshots) (operationId : String) :
    (s.live? operationId).map Operation.evidence =
      s.evidence.filter fun e => e.operationId = operationId && !e.state.terminal := by
  rw [Snapshots.live?, Snapshots.evidence, Option.filter_map]
  rfl

theorem current_of_live? {s : Snapshots} {operationId : String} {op : Operation}
    (h : s.live? operationId = some op) : s.current = some op := (Option.filter_eq_some_iff.mp h).1

theorem evidence_see_owner (e : Evidence) (payload : JsonObject) :
    (e.see floatOfText payload).2.operationId = e.operationId ∧
      (e.see floatOfText payload).2.state.terminal = e.state.terminal := by
  have hstarted : e.state.started.terminal = e.state.terminal := by
    cases e.state <;> rfl
  rw [Evidence.see]
  split
  · exact ⟨rfl, hstarted⟩
  · exact ⟨rfl, hstarted⟩

theorem seeLive_again (operationId : String) (e : Option Evidence) (payload : JsonObject) :
    seeLive floatOfText operationId (seeLive floatOfText operationId e payload).2 payload =
      (quieten (seeLive floatOfText operationId e payload).1,
        (seeLive floatOfText operationId e payload).2) := by
  cases hlive : e.filter fun e => e.operationId = operationId && !e.state.terminal with
  | none => simp only [seeLive, hlive, quieten]
  | some e' =>
      obtain ⟨-, howned⟩ := Option.filter_eq_some_iff.mp hlive
      obtain ⟨howner, hterminal⟩ := evidence_see_owner floatOfText e' payload
      have hstill : (some (e'.see floatOfText payload).2).filter
          (fun e => e.operationId = operationId && !e.state.terminal) =
            some (e'.see floatOfText payload).2 := by
        refine Option.filter_eq_some_iff.mpr ⟨rfl, ?_⟩
        rw [howner, hterminal]
        exact howned
      simp only [seeLive, hlive, hstill, e'.see_again floatOfText payload]

theorem observe_evidence (operationId : String) (s : Snapshots) (payload : JsonObject)
    (clock : Clock) :
    (s.observe floatOfText operationId payload clock).1 =
        (seeLive floatOfText operationId s.evidence payload).1 ∧
      (s.observe floatOfText operationId payload clock).2.evidence =
        (seeLive floatOfText operationId s.evidence payload).2 := by
  have hevidence := live?_evidence s operationId
  cases hlive : s.live? operationId with
  | none =>
      rw [hlive, Option.map_none] at hevidence
      simp only [Snapshots.observe, hlive, seeLive, ← hevidence]
      exact ⟨trivial, trivial⟩
  | some op =>
      rw [hlive, Option.map_some] at hevidence
      obtain ⟨houtcome, hafter⟩ := evidence_observe floatOfText op payload clock
      simp only [Snapshots.observe, hlive, seeLive, ← hevidence]
      exact ⟨houtcome, congrArg some hafter⟩

/-! ## Repeats are no progress -/

/-- What comes between the samples. -/
inductive OtherCall where
  | tick
  | enrich (facts : JsonObject) (source : String)

/-- The calls on one operation. -/
def observer (operationId : String) :
    Observer Snapshots JsonObject OtherCall Clock (Except IntError (Option Signal)) where
  sample := Snapshots.observe floatOfText operationId
  other s call clock := match call with
    | .tick => (.ok none, s.tick operationId clock)
    | .enrich facts source => (.ok none, s.enrich operationId facts source clock)

/-- No signal is produced. -/
def Quiet (outcome : Except IntError (Option Signal)) : Prop :=
  ∀ signal, outcome ≠ .ok (some signal)

theorem quiet_quieten (outcome : Except IntError (Option Signal)) : Quiet (quieten outcome) := by
  intro signal h
  cases outcome with
  | error e => cases h
  | ok signal' => cases Except.ok.inj h

theorem tick_evidence (operationId : String) (s : Snapshots) (clock : Clock) :
    (s.tick operationId clock).evidence = s.evidence := by
  rw [Snapshots.tick]
  cases hlive : s.live? operationId with
  | none => rfl
  | some op =>
      rw [Snapshots.evidence, Snapshots.evidence, current_of_live? hlive]
      exact congrArg some (evidence_markFactFrame op clock)

theorem enrich_evidence (operationId : String) (s : Snapshots) (facts : JsonObject)
    (source : String) (clock : Clock) :
    (s.enrich operationId facts source clock).evidence = s.evidence := by
  rw [Snapshots.enrich]
  cases hlive : s.live? operationId with
  | none => rfl
  | some op =>
      rw [Snapshots.evidence, Snapshots.evidence, current_of_live? hlive]
      exact congrArg some (evidence_enrich op facts source clock)

theorem settles (operationId : String) :
    (observer floatOfText operationId).Settles Snapshots.evidence
      (seeLive floatOfText operationId) Quiet where
  sample_output s payload clock := (observe_evidence floatOfText operationId s payload clock).1
  sample_view s payload clock := (observe_evidence floatOfText operationId s payload clock).2
  again_quiet e payload := by
    rw [seeLive_again]
    exact quiet_quieten _
  again_view e payload := by rw [seeLive_again]
  other_quiet s call clock := by
    intro signal h
    cases call with
    | tick => cases Except.ok.inj h
    | enrich facts source => cases Except.ok.inj h
  other_view s call clock := by
    cases call with
    | tick => exact tick_evidence operationId s clock
    | enrich facts source => exact enrich_evidence operationId s facts source clock

/-- When the operation last advanced, by both clocks. -/
def Snapshots.progressTime (s : Snapshots) : Option (Rat × Option String) :=
  s.current.map fun op => (op.lastProgress, op.lastProgressAt)

theorem markFactFrame_progressTime (op : Operation) (clock : Clock) :
    (op.markFactFrame clock).lastProgress = op.lastProgress ∧
      (op.markFactFrame clock).lastProgressAt = op.lastProgressAt := by
  rw [Operation.markFactFrame]
  split <;> exact ⟨rfl, rfl⟩

/-- Without a signal the last progress stays when it was. -/
theorem observe_progressTime (operationId : String) {s : Snapshots} {payload : JsonObject}
    {clock : Clock} (h : Quiet (s.observe floatOfText operationId payload clock).1) :
    (s.observe floatOfText operationId payload clock).2.progressTime = s.progressTime := by
  cases hlive : s.live? operationId with
  | none => simp only [Snapshots.observe, hlive]
  | some op =>
      have hcurrent := current_of_live? hlive
      cases hseen : progressSignal floatOfText (op.receive payload clock).baselines payload with
      | mk outcome baselines =>
          simp only [Snapshots.observe, hlive, Operation.observe, hseen] at h ⊢
          rw [Snapshots.progressTime, Snapshots.progressTime, hcurrent]
          cases outcome with
          | error err => rfl
          | ok signal =>
              cases signal with
              | some signal => exact absurd rfl (h signal)
              | none =>
                  obtain ⟨hlast, hlastAt⟩ := markFactFrame_progressTime
                    (({ op.receive payload clock with baselines }.progress none clock).mergeFacts
                      payload) clock
                  exact congrArg some (Prod.ext hlast hlastAt)

theorem other_progressTime (operationId : String) (s : Snapshots) (call : OtherCall)
    (clock : Clock) :
    ((observer floatOfText operationId).other s call clock).2.progressTime = s.progressTime := by
  cases hlive : s.live? operationId with
  | none => cases call <;> simp only [observer, Snapshots.tick, Snapshots.enrich, hlive]
  | some op =>
      have hcurrent := current_of_live? hlive
      cases call with
      | tick =>
          simp only [observer, Snapshots.tick, hlive]
          rw [Snapshots.progressTime, Snapshots.progressTime, hcurrent]
          obtain ⟨hlast, hlastAt⟩ := markFactFrame_progressTime op clock
          exact congrArg some (Prod.ext hlast hlastAt)
      | enrich facts source =>
          simp only [observer, Snapshots.enrich, hlive, Operation.enrich]
          rw [Snapshots.progressTime, Snapshots.progressTime, hcurrent]
          split
          · rfl
          · obtain ⟨hlast, hlastAt⟩ := markFactFrame_progressTime
              { op with facts := op.facts.set "bounded_reads" _ } clock
            exact congrArg some (Prod.ext hlast hlastAt)

/-- What a sample produces, and the phase and facts after it. -/
def report (turn : Turn Snapshots JsonObject OtherCall Clock (Except IntError (Option Signal))) :
    Except IntError (Option Signal) × Option (Option String × Option Json × Option Json) :=
  (turn.output, turn.after.current.map fun op =>
    (op.phase, op.facts.get? "inventory_delta", op.facts.get? "failed_path_calculations"))

/-- **Repeated samples are not progress.** -/
theorem repeats_are_no_progress (operationId : String) (s : Snapshots)
    {events : List (SampleEvent JsonObject OtherCall Clock)}
    (h : SampleEvent.RepeatsLast none events) :
    (((observer floatOfText operationId).turns s events).filter (·.event.original)).map report =
        ((observer floatOfText operationId).turns s
          (events.filter SampleEvent.original)).map report ∧
      ∀ turn ∈ (observer floatOfText operationId).turns s events, turn.event.original = false →
        Quiet turn.output ∧ turn.after.progressTime = turn.before.progressTime := by
  have hsettles := settles floatOfText operationId
  have hseen : Observer.Seen (seeLive floatOfText operationId) none s.evidence :=
    fun payload hpayload => absurd hpayload (Option.not_mem_none payload)
  constructor
  · have hsame := congrArg (List.map fun seen : Except IntError (Option Signal) × Option Evidence =>
      (seen.1, seen.2.map fun e => (e.phase, e.inventoryDelta, e.failedPathCalculations)))
        (hsettles.insertions h hseen rfl)
    simp only [List.map_map] at hsame
    have hreport : ∀ turn : Turn Snapshots JsonObject OtherCall Clock
        (Except IntError (Option Signal)), report turn =
          (turn.output, turn.after.evidence.map fun e =>
            (e.phase, e.inventoryDelta, e.failedPathCalculations)) := by
      intro turn
      rw [report, Snapshots.evidence, Option.map_map]
      rfl
    simp only [funext hreport]
    exact hsame
  · intro turn hturn hinserted
    obtain ⟨hquiet, -⟩ := hsettles.inserted h hseen turn hturn hinserted
    obtain ⟨houtput, hafter⟩ := Observer.mem_turns _ turn hturn
    refine ⟨hquiet, ?_⟩
    rw [hafter]
    obtain ⟨event, before, output, after⟩ := turn
    cases event with
    | sample payload clock => cases hinserted
    | again payload clock =>
        refine observe_progressTime floatOfText operationId ?_
        rw [houtput] at hquiet
        exact hquiet
    | other call clock => exact other_progressTime floatOfText operationId before call clock

end

/-! ## A walk -/

/-- The Body follows a path along one axis. -/
def walking (x : Int) : JsonObject :=
  [("pathing", .bool true), ("position", .arr [.int x, .int 64, .int 0])]

def atStart : Snapshots := ⟨some (.new "call-1" "goto" [] ⟨0, "00:00"⟩)⟩

/-- Two samples, each of them again after a tick or a read. -/
def walk : List (SampleEvent JsonObject OtherCall Clock) :=
  [.sample (walking 0) ⟨1, "00:01"⟩, .other .tick ⟨2, "00:02"⟩, .again (walking 0) ⟨3, "00:03"⟩,
    .sample (walking 4) ⟨4, "00:04"⟩, .other (.enrich (walking 4) "bounded_read") ⟨5, "00:05"⟩,
    .again (walking 4) ⟨6, "00:06"⟩]

theorem walk_repeats :
    (((observer (fun _ => none) "call-1").turns atStart walk).filter (·.event.original)).map report =
        ((observer (fun _ => none) "call-1").turns atStart
          (walk.filter SampleEvent.original)).map report ∧
      ∀ turn ∈ (observer (fun _ => none) "call-1").turns atStart walk, turn.event.original = false →
        Quiet turn.output ∧ turn.after.progressTime = turn.before.progressTime :=
  repeats_are_no_progress (fun _ => none) "call-1" atStart ⟨rfl, rfl, trivial⟩

-- four blocks are progress once
example : ((observer (fun _ => none) "call-1").turns atStart walk).map (·.output) =
    [.ok none, .ok none, .ok none, .ok (some .movement), .ok none, .ok none] := by decide +kernel

end ExecutionSnapshots

end MineBot
