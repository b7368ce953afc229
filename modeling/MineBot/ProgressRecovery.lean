import MineBot.ProgressEpochs

/-!
# Recovery of the progress authority

`replay_progress_epoch` decodes the commit input of a stored epoch and
makes the commit of `_finalize` again. The decoder inverts the encoder
piece by piece: action keys, facts, steps, texts. Given that, both
commits start from the same facts and read the same novel keys, those of
the row (`replay_finalized`).

A stop is stored twice, as a pending reason when the epoch is and as the
row's own reason when it is marked. The mark adds only the dominant of
the pending reasons, so it does not matter on which side of it the
process stopped.
-/

namespace MineBot

open Table

/-! ## Decoding -/

mutual

/-- The body of the loop of `_action_key`. -/
def keyItemOf : Json → Except String KeyItem
  | .null => .ok .none
  | .bool b => .ok (.bool b)
  | .int n => .ok (.int n)
  | .float q => .ok (.float q)
  | .str s => .ok (.str s)
  | .arr items => (keyItemsOf items).map .tuple
  | .obj _ => .error "invalid progress action key component"

def keyItemsOf : List Json → Except String (List KeyItem)
  | [] => .ok []
  | value :: values =>
      match keyItemOf value, keyItemsOf values with
      | .ok item, .ok items => .ok (item :: items)
      | .error e, _ => .error e
      | _, .error e => .error e

end

/-- `_action_key`. -/
def actionKeyOf : Json → Except String ActionKey
  | .arr values => keyItemsOf values
  | _ => .error "progress action key must be an array"

/-- The texts of an array of nothing else. -/
def textsOf? : List Json → Option (List String)
  | [] => some []
  | .str text :: values => (textsOf? values).map (text :: ·)
  | _ :: _ => none

/-- `_text_list`. -/
def textList : Json → Except String (List String)
  | .arr values => match textsOf? values with
    | some texts => .ok texts
    | none => .error "progress evidence must be an array of text"
  | _ => .error "progress evidence must be an array of text"

/-- `d.get(k)`. -/
def readKey (d : JsonObject) (k : String) : Json := (d.get? k).getD .null

/-- A counter of the baseline. -/
def counterOf (before : JsonObject) (key : String) : Except String Nat :=
  match readKey before key with
  | .int n => if n < 0 then .error s!"invalid progress counter: {key}" else .ok n.toNat
  | _ => .error s!"invalid progress counter: {key}"

/-- A text of the baseline. -/
def fieldOf (before : JsonObject) (key : String) : Except String String :=
  match readKey before key with
  | .str text => .ok text
  | _ => .error s!"invalid progress field: {key}"

/-- The last action of the baseline. -/
def lastActionOf : Json → Except String (Option ActionKey)
  | .null => .ok none
  | action => (actionKeyOf action).map some

/-- The facts of the baseline. -/
def factsOf (before : JsonObject) : Except String ProgressFacts := do
  let action ← match before.get? "last_action" with
    | none => .error "progress action baseline is missing"
    | some action => .ok action
  let stagnantSteps ← counterOf before "stagnant_steps"
  let stalledSteps ← counterOf before "stalled_steps"
  let failureSteps ← counterOf before "failure_steps"
  let epistemicSteps ← counterOf before "epistemic_steps"
  let goal ← fieldOf before "goal"
  let lastFingerprint ← fieldOf before "last_fingerprint"
  let currentFingerprint ← fieldOf before "current_fingerprint"
  let lastAction ← lastActionOf action
  let lastEpistemicKeys ← textList (readKey before "last_epistemic_keys")
  let recentEvents ← textList (readKey before "recent_events")
  return { goal, lastAction, stagnantSteps, stalledSteps, failureSteps, lastFingerprint,
           currentFingerprint, recentEvents, epistemicSteps, lastEpistemicKeys }

/-- The body of the loop over the steps. -/
def stepOf : Json → Except String ProgressStep
  | .obj step => do
      let (kind, fingerprint, neutral, success) ←
        match readKey step "kind", readKey step "fingerprint", readKey step "neutral",
            readKey step "success" with
        | .str "note", .str fingerprint, .bool neutral, .bool success =>
            .ok (.note, fingerprint, neutral, some success)
        | .str "observe", .str fingerprint, .bool neutral, .null =>
            .ok (.observe, fingerprint, neutral, none)
        | _, _, _, _ => .error "invalid collapsed progress step"
      let actionKey ← actionKeyOf (readKey step "action_key")
      return { kind, actionKey, fingerprint, success, neutral }
  | _ => .error "invalid collapsed progress step"

/-- `ProgressStopReason(reason)`. -/
def stopReasonOf (reason : String) : Except String ProgressStopReason :=
  match ProgressStopReason.ofText? reason with
  | some reason => .ok reason
  | none => .error s!"'{reason}' is not a valid ProgressStopReason"

/-- `_progress_epoch_from_row`. -/
def ProgressEpochRow.toRecord (row : ProgressEpochRow) : JsonObject :=
  [("cursor", .int row.cursor),
   ("epoch_id", .str row.epochId),
   ("scope_key", .str row.scopeKey),
   ("run_id", .str row.runId),
   ("model_turn", .int row.modelTurn),
   ("members", .arr (row.members.map .obj)),
   ("pre_body_fingerprint", .ofOption row.preBodyFingerprint),
   ("post_body_fingerprint", .ofOption row.postBodyFingerprint),
   ("evidence_refs", .texts row.evidenceRefs),
   ("epistemic_keys", .texts row.epistemicKeys),
   ("novel_epistemic_keys", .texts row.novelEpistemicKeys),
   ("material_changed", .bool row.materialChanged),
   ("progress_aborted", .bool row.progressAborted),
   ("progress_stop_reason", .ofOption row.progressStopReason),
   ("budget_checkpoint_id", .ofOption row.budgetCheckpointId),
   ("commit_input", (row.commitInput.map Json.obj).getD .null),
   ("settled_at", .str row.settledAt)]

/-- `str(record.get("progress_stop_reason"))` of a column that holds a text or
nothing. -/
def storedReason (record : JsonObject) : String :=
  match readKey record "progress_stop_reason" with
  | .str reason => reason
  | _ => "None"

/-- The stops a later process takes up again. -/
def restoredStops (reasons : List ProgressStopReason) : List (Option ProgressAbort) :=
  (reasons.filter (!·.reviewable)).map fun reason =>
    some { message := "restored progress stop", stopReason := reason }

/-- A restored stop stays bound to its epoch. -/
def bindStop (record : JsonObject) (abort : ProgressAbort) : ProgressAbort :=
  { abort with
    stopEpochId := match readKey record "epoch_id" with
      | .str epochId => if epochId = "" then none else some epochId
      | _ => none }

/-- The commit input, of the one version there is. -/
def commitInputOf (record : JsonObject) : Except String JsonObject :=
  match readKey record "commit_input" with
  | .obj commit =>
      if readKey commit "version" = .int 1 then .ok commit
      else .error "unsupported or missing progress commit input"
  | _ => .error "unsupported or missing progress commit input"

def applyOf (commit : JsonObject) : Except String Bool :=
  match readKey commit "apply" with
  | .bool apply => .ok apply
  | _ => .error "progress commit applicability is missing"

def baselineOf (commit : JsonObject) : Except String ProgressFacts :=
  match readKey commit "authority_before" with
  | .obj before => factsOf before
  | _ => .error "progress authority baseline is missing"

def stepsOf (commit : JsonObject) (apply : Bool) : Except String (List ProgressStep) :=
  match readKey commit "steps" with
  | .arr rawSteps =>
      if !apply && !rawSteps.isEmpty then .error "invalid collapsed progress steps"
      else rawSteps.mapM stepOf
  | _ => .error "invalid collapsed progress steps"

/-- `material_changed` and `progress_aborted`. -/
def outcomeOf (record : JsonObject) : Except String (Bool × Bool) :=
  match readKey record "material_changed", readKey record "progress_aborted" with
  | .bool materialChanged, .bool progressAborted => .ok (materialChanged, progressAborted)
  | _, _ => .error "progress epoch outcome is missing"

/-- `replay_progress_epoch`. -/
def replayProgressEpoch (record : JsonObject) :
    Except String (ProgressFacts × Option ProgressAbort) := do
  let commit ← commitInputOf record
  let apply ← applyOf commit
  let facts ← baselineOf commit
  let steps ← stepsOf commit apply
  let novel ← textList (readKey record "novel_epistemic_keys")
  let (materialChanged, progressAborted) ← outcomeOf record
  let reasons ← textList (readKey commit "pending_stop_reasons")
  let reasons ← (if progressAborted then reasons ++ [storedReason record] else reasons).mapM
    stopReasonOf
  let authority := ProgressAuthority.restoreFacts facts
  let authority ← if apply then authority.commitSteps steps novel materialChanged else .ok authority
  return (authority.facts facts.goal,
    (dominantProgressAbort (restoredStops reasons)).map (bindStop record))

/-! ## The decoder inverts the encoder -/

mutual

theorem keyItemOf_toJson : ∀ item : KeyItem, keyItemOf item.toJson = .ok item
  | .none => rfl
  | .bool _ => rfl
  | .int _ => rfl
  | .float _ => rfl
  | .str _ => rfl
  | .tuple items => by simp [KeyItem.toJson, keyItemOf, keyItemsOf_listToJson items, Except.map]

theorem keyItemsOf_listToJson : ∀ items : List KeyItem,
    keyItemsOf (KeyItem.listToJson items) = .ok items
  | [] => rfl
  | item :: items => by
      simp [KeyItem.listToJson, keyItemsOf, keyItemOf_toJson item, keyItemsOf_listToJson items]

end

theorem actionKeyOf_toJson (key : ActionKey) : actionKeyOf key.toJson = .ok key :=
  keyItemsOf_listToJson key

theorem textList_texts (texts : List String) : textList (.texts texts) = .ok texts := by
  have htexts : textsOf? (texts.map .str) = some texts := by
    induction texts with
    | nil => rfl
    | cons text texts ih => simp [textsOf?, ih]
  simp [textList, Json.texts, htexts]

theorem counterOf_int {before : JsonObject} {key : String} {n : Nat}
    (h : readKey before key = .int n) : counterOf before key = .ok n := by
  simp [counterOf, h]

theorem fieldOf_str {before : JsonObject} {key text : String}
    (h : readKey before key = .str text) : fieldOf before key = .ok text := by
  simp [fieldOf, h]

theorem lastActionOf_toJson (action : Option ActionKey) :
    lastActionOf ((action.map ActionKey.toJson).getD .null) = .ok action := by
  cases action with
  | none => rfl
  | some key =>
      simp [ActionKey.toJson, lastActionOf, actionKeyOf, keyItemsOf_listToJson, Except.map]

theorem factsOf_toJson (facts : ProgressFacts) : factsOf facts.toJson = .ok facts := by
  have hcounter : ∀ n : Nat, ¬ (n : Int) < 0 := fun n => by omega
  simp [factsOf, ProgressFacts.toJson, Dict.get?, counterOf, fieldOf, readKey, textList_texts,
    lastActionOf_toJson, hcounter, bind, Except.bind, pure, Except.pure]

/-- A step that the decoder takes back. -/
def ProgressStep.Replayable (step : ProgressStep) : Prop :=
  match step.kind with
  | .observe => step.success = none
  | .note => step.success ≠ none

theorem stepOf_toJson {step : ProgressStep} (h : step.Replayable) :
    stepOf (.obj step.toJson) = .ok step := by
  obtain ⟨kind, actionKey, fingerprint, success, neutral⟩ := step
  cases kind with
  | observe =>
      cases (show success = none from h)
      simp [stepOf, ProgressStep.toJson, ProgressStepKind.value, readKey, Dict.get?,
        actionKeyOf_toJson, bind, Except.bind, pure, Except.pure]
  | note =>
      obtain ⟨outcome, rfl⟩ := Option.ne_none_iff_exists'.mp (show success ≠ none from h)
      simp [stepOf, ProgressStep.toJson, ProgressStepKind.value, readKey, Dict.get?,
        actionKeyOf_toJson, bind, Except.bind, pure, Except.pure]

theorem mapM_stepOf {steps : List ProgressStep} (h : ∀ step ∈ steps, step.Replayable) :
    (steps.map fun step => Json.obj step.toJson).mapM stepOf = .ok steps := by
  induction steps with
  | nil => rfl
  | cons step steps ih =>
      have hstep := stepOf_toJson (h step List.mem_cons_self)
      have hrest := ih fun s hs => h s (List.mem_cons_of_mem _ hs)
      simp [List.mapM_cons, hstep, hrest, bind, Except.bind, pure, Except.pure]

theorem stopReasonOf_value (reason : ProgressStopReason) :
    stopReasonOf reason.value = .ok reason := by
  cases reason <;> rfl

theorem mapM_stopReasonOf (reasons : List ProgressStopReason) :
    (reasons.map (·.value)).mapM stopReasonOf = .ok reasons := by
  induction reasons with
  | nil => rfl
  | cons reason reasons ih =>
      simp [List.mapM_cons, stopReasonOf_value, ih, bind, Except.bind, pure, Except.pure]

/-! ## Steps that were committed -/

/-- At most one collapsed step, and no outcome in an observation. -/
theorem collapsed_cases (members : List EpochMember) :
    collapsedEpochProgressSteps members = []
      ∨ ∃ step, collapsedEpochProgressSteps members = [step]
          ∧ (step.kind = .observe → step.success = none) := by
  simp only [collapsedEpochProgressSteps]
  split
  · exact .inl rfl
  · split
    · exact .inr ⟨_, rfl, fun h => by cases h⟩
    · split
      · exact .inr ⟨_, rfl, fun _ => rfl⟩
      · exact .inr ⟨_, rfl, fun h => by cases h⟩

/-- A note without an outcome is never committed. -/
theorem replayable_of_committed {a a' : ProgressAuthority} {members : List EpochMember}
    {novel : List String} {materialChanged : Bool}
    (h : a.commitSteps (collapsedEpochProgressSteps members) novel materialChanged = .ok a') :
    ∀ step ∈ collapsedEpochProgressSteps members, step.Replayable := by
  obtain hnil | ⟨step, hstep, hobserve⟩ := collapsed_cases members
  · simp [hnil]
  · rw [hstep] at h ⊢
    intro s hs
    rw [List.mem_singleton.mp hs]
    obtain ⟨kind, actionKey, fingerprint, success, neutral⟩ := step
    cases kind with
    | observe => exact hobserve rfl
    | note =>
        cases success with
        | none =>
            simp [ProgressAuthority.commitSteps, ProgressAuthority.commitStep, bind,
              Except.bind] at h
        | some outcome => exact Option.some_ne_none outcome

/-! ## Stops -/

theorem ProgressStopReason.priority_injective : Function.Injective priority := by
  intro r s h
  cases r <;> cases s <;> first | rfl | cases h

/-- The reason of the dominant stop is the highest one there is. -/
theorem dominant_reason_iff {aborts : List (Option ProgressAbort)} {r : ProgressStopReason} :
    (dominantProgressAbort aborts).map (·.stopReason) = some r
      ↔ (∃ a, some a ∈ aborts ∧ a.stopReason = r)
        ∧ ∀ a, some a ∈ aborts → a.stopReason.priority ≤ r.priority := by
  have hmem : ∀ a, a ∈ aborts.filterMap id ↔ some a ∈ aborts := by simp
  constructor
  · intro h
    obtain ⟨m, hm, rfl⟩ := Option.map_eq_some_iff.mp h
    have hin : m ∈ aborts.filterMap id := List.argmax_mem hm
    refine ⟨⟨m, (hmem m).mp hin, rfl⟩, fun a ha => ?_⟩
    exact List.le_of_mem_argmax (f := fun a : ProgressAbort => a.stopReason.priority)
      ((hmem a).mpr ha) hm
  · rintro ⟨⟨a, ha, rfl⟩, hmax⟩
    cases hm : dominantProgressAbort aborts with
    | none =>
        rw [List.argmax_eq_none.mp hm] at hmem
        exact absurd ((hmem a).mpr ha) List.not_mem_nil
    | some m =>
        have hfirst := List.le_of_mem_argmax ((hmem a).mpr ha) hm
        have hsecond := hmax m ((hmem m).mp (List.argmax_mem hm))
        simp [ProgressStopReason.priority_injective (Nat.le_antisymm hsecond hfirst)]

theorem ProgressStopReason.priority_lt {r s : ProgressStopReason} (hr : r.reviewable = true)
    (hs : s.reviewable = false) : r.priority < s.priority := by
  revert hr hs
  cases r <;> cases s <;> decide

/-- Reviewable reasons never hide another one, so leaving them out leaves the
dominant reason if it is not one of them. -/
theorem dominant_nonreviewable {aborts : List (Option ProgressAbort)}
    {reasons : List ProgressStopReason}
    (h : ∀ r, r ∈ reasons ↔ ∃ a, some a ∈ aborts ∧ a.stopReason = r) :
    (dominantProgressAbort (restoredStops reasons)).map (·.stopReason)
      = ((dominantProgressAbort aborts).map (·.stopReason)).filter (!·.reviewable) := by
  have hkept : ∀ a, some a ∈ restoredStops reasons
      ↔ ∃ r ∈ reasons, r.reviewable = false
          ∧ ({ message := "restored progress stop", stopReason := r } : ProgressAbort) = a := by
    simp [restoredStops, and_assoc]
  refine Option.ext fun r => ?_
  rw [Option.filter_eq_some_iff, dominant_reason_iff, dominant_reason_iff]
  constructor
  · rintro ⟨⟨a, ha, rfl⟩, hmax⟩
    obtain ⟨r, hr, hrev, rfl⟩ := (hkept a).mp ha
    refine ⟨⟨(h r).mp hr, fun b hb => ?_⟩, by simp [hrev]⟩
    cases hb' : b.stopReason.reviewable with
    | true => exact (ProgressStopReason.priority_lt hb' hrev).le
    | false =>
        have hreason := (h b.stopReason).mpr ⟨b, hb, rfl⟩
        exact hmax { message := "restored progress stop", stopReason := b.stopReason }
          ((hkept _).mpr ⟨b.stopReason, hreason, hb', rfl⟩)
  · rintro ⟨⟨hex, hmax⟩, hrev⟩
    have hrev : r.reviewable = false := by simpa using hrev
    refine ⟨⟨_, (hkept _).mpr ⟨r, (h r).mpr hex, hrev, rfl⟩, rfl⟩, fun a ha => ?_⟩
    obtain ⟨s, hs, -, rfl⟩ := (hkept a).mp ha
    obtain ⟨b, hb, rfl⟩ := (h s).mp hs
    exact hmax b hb

/-! ## The stored row -/

namespace ProgressStore

/-- What an insert leaves: the new row last, the first of its id. -/
structure Inserted (st st' : ProgressStore) (scope : RuntimeScope) (record : EpochRecord)
    (row : ProgressEpochRow) : Prop where
  epochs : st'.epochs = st.epochs ++ [row]
  scopeKey : row.scopeKey = scope.key
  fresh : ∀ other ∈ st.epochs, other.epochId ≠ row.epochId
  materialChanged : row.materialChanged = record.materialChanged
  progressAborted : row.progressAborted = false
  progressStopReason : row.progressStopReason = none
  commitInput : row.commitInput = some record.commitInput

variable {st st' : ProgressStore} {scope : RuntimeScope} {record : EpochRecord}
  {row : ProgressEpochRow} {now : String}

theorem createProgressEpoch_inserted
    (h : st.createProgressEpoch scope record now = .ok ((row, true), st')) :
    Inserted st st' scope record row := by
  simp only [createProgressEpoch] at h
  split at h
  · cases h
  · cases h
  · split at h
    · cases h
    · split at h
      · cases h
      · split at h
        · cases h
        · split at h
          · split at h <;> cases h
          · next hclash =>
              cases h
              refine ⟨rfl, rfl, fun other hother heq => hclash ?_, rfl, rfl, rfl, rfl⟩
              exact List.any_eq_true.mpr ⟨other, hother, by simpa using .inl heq⟩

/-- A row that is read back is the inserted one, perhaps marked. -/
structure ReadBack (row row' : ProgressEpochRow) (abort : Option ProgressAbort) : Prop where
  epochId : row'.epochId = row.epochId
  novel : row'.novelEpistemicKeys = row.novelEpistemicKeys
  materialChanged : row'.materialChanged = row.materialChanged
  commitInput : row'.commitInput = row.commitInput
  marked : row'.progressAborted = false
    ∨ ∃ a, abort = some a ∧ row'.progressAborted = true
        ∧ row'.progressStopReason = some a.stopReason.value

theorem find?_last {rows : List ProgressEpochRow} (hscope : row.scopeKey = scope.key)
    (hfresh : ∀ other ∈ rows, other.epochId ≠ row.epochId) :
    (rows ++ [row]).find? (fun other => other.scopeKey = scope.key ∧ other.epochId = row.epochId)
      = some row := by
  rw [List.find?_append, List.find?_eq_none.mpr, Option.none_or]
  · simp [hscope]
  · intro other hother
    simpa using fun _ => hfresh other hother

theorem Inserted.getProgressEpoch (h : Inserted st st' scope record row) :
    st'.getProgressEpoch scope row.epochId = some row := by
  rw [ProgressStore.getProgressEpoch, h.epochs]
  exact find?_last h.scopeKey h.fresh

theorem Inserted.readBack (h : Inserted st st' scope record row) (abort : Option ProgressAbort) :
    ReadBack row row abort :=
  ⟨rfl, rfl, rfl, rfl, .inl h.progressAborted⟩

/-- The mark of a stop leaves the row readable. -/
theorem Inserted.marked (h : Inserted st st' scope record row) {epochId : String}
    {abort : ProgressAbort} {marked : ProgressStore}
    (hmark : st'.markProgressEpochAborted scope epochId abort.stopReason = some marked) :
    ∃ row', marked.getProgressEpoch scope row.epochId = some row'
      ∧ ReadBack row row' (some abort) := by
  simp only [markProgressEpochAborted] at hmark
  split at hmark
  · cases hmark
  · cases hmark
    set p : ProgressEpochRow → Bool := fun r => r.scopeKey = scope.key ∧ r.epochId = epochId
    set f : ProgressEpochRow → ProgressEpochRow := fun r =>
      { r with
        progressAborted := true
        progressStopReason := r.progressStopReason.or (some abort.stopReason.value) } with hf
    have happend : updateWhere p f st'.epochs
        = updateWhere p f st.epochs ++ [if p row then f row else row] := by
      simp [updateWhere, h.epochs]
    have hid : ∀ r, (if p r then f r else r).epochId = r.epochId := fun r => by split <;> rfl
    have hscope : (if p row then f row else row).scopeKey = scope.key := by
      split <;> exact h.scopeKey
    refine ⟨if p row then f row else row, ?_, ?_⟩
    · rw [ProgressStore.getProgressEpoch, happend, ← hid row]
      refine find?_last hscope fun other hother => ?_
      obtain ⟨r, hr, rfl⟩ := mem_updateWhere.mp hother
      rw [hid, hid]
      exact h.fresh r hr
    · by_cases hp : p row = true
      · rw [if_pos hp]
        exact ⟨rfl, rfl, rfl, rfl, .inr ⟨abort, rfl, rfl, by simp [hf, h.progressStopReason]⟩⟩
      · rw [if_neg hp]
        exact h.readBack _

end ProgressStore

/-! ## The live commit and the replay -/

namespace ProgressEpoch

variable {epoch : ProgressEpoch} {isTaskClosure : String → Bool} {a : ProgressAuthority}
  {goalText : String} {st : ProgressStore} {scope : RuntimeScope} {now : String}
  {storeFault markFault : Bool} {out : Finalized} {row row' : ProgressEpochRow}

/-- What `_finalize` did where it stored a new row. -/
theorem finalize_inserted
    (h : epoch.finalize isTaskClosure a goalText st scope now storeFault markFault = .ok out)
    (hstored : out.stored = some (row, true)) :
    st.createProgressEpoch scope (epoch.record isTaskClosure a goalText) now
        = .ok ((row, true), out.beforeMark)
      ∧ epoch.commit isTaskClosure a row.novelEpistemicKeys = .ok out.authority
      ∧ (out.abort, out.markFailed, out.store) = epoch.markAbort scope out.beforeMark markFault
          (dominantProgressAbort epoch.pendingAborts) := by
  simp only [finalize, bind, Except.bind, pure, Except.pure] at h
  cases hcreated : (if storeFault then .error .database
      else st.createProgressEpoch scope (epoch.record isTaskClosure a goalText) now) with
  | error e =>
      simp only [hcreated] at h
      cases hcommit : epoch.commit isTaskClosure a [] with
      | error e => simp [hcommit] at h
      | ok authority =>
          simp only [hcommit, Except.ok.injEq] at h
          simp [← h] at hstored
  | ok created =>
      obtain ⟨stored, st'⟩ := created
      simp only [hcreated] at h
      cases hcommit : epoch.commit isTaskClosure a stored.1.novelEpistemicKeys with
      | error e => simp [hcommit] at h
      | ok authority =>
          simp only [hcommit, Except.ok.injEq] at h
          subst h
          cases hstored
          refine ⟨?_, hcommit, rfl⟩
          cases storeFault with
          | true => cases hcreated
          | false => exact hcreated

theorem mem_pendingReasons {r : ProgressStopReason} :
    r ∈ (epoch.pendingAborts.filterMap id).map (·.stopReason)
      ↔ ∃ a, some a ∈ epoch.pendingAborts ∧ a.stopReason = r := by
  simp

/-- The mark changes the reason of the live stop only where it raises. -/
theorem markAbort_reason {abort : Option ProgressAbort} {st' : ProgressStore}
    {out : Option ProgressAbort × Bool × ProgressStore}
    (h : out = epoch.markAbort scope st' markFault abort) (hmark : out.2.1 = false) :
    out.1.map (·.stopReason) = abort.map (·.stopReason) := by
  subst h
  cases abort with
  | none => rfl
  | some abort =>
      simp only [markAbort] at hmark ⊢
      split at hmark
      · rfl
      · cases hmark

/-- On both sides of the mark the row can be read back. -/
theorem markAbort_store {record : EpochRecord} {abort : Option ProgressAbort}
    {st' : ProgressStore} {out : Option ProgressAbort × Bool × ProgressStore}
    (hinserted : ProgressStore.Inserted st st' scope record row)
    (h : out = epoch.markAbort scope st' markFault abort) :
    ∃ row', out.2.2.getProgressEpoch scope row.epochId = some row'
      ∧ ProgressStore.ReadBack row row' abort := by
  have hunmarked : ∃ row', st'.getProgressEpoch scope row.epochId = some row'
      ∧ ProgressStore.ReadBack row row' abort :=
    ⟨row, hinserted.getProgressEpoch, hinserted.readBack abort⟩
  subst h
  cases abort with
  | none => exact hunmarked
  | some abort =>
      simp only [markAbort]
      split
      · next marked hmarked =>
          cases markFault with
          | true => cases hmarked
          | false => exact hinserted.marked hmarked
      · exact hunmarked

/-- The replay of a row that is read back commits what the live path
committed. -/
theorem replay_readBack
    (hcommit : epoch.commit isTaskClosure a row.novelEpistemicKeys = .ok out.authority)
    (hmaterial : row.materialChanged = epoch.materialChanged)
    (hinput : row.commitInput = some (epoch.commitInput isTaskClosure a goalText))
    (hread : ProgressStore.ReadBack row row' (dominantProgressAbort epoch.pendingAborts)) :
    ∃ restored, replayProgressEpoch row'.toRecord = .ok (out.authority.facts goalText, restored)
      ∧ restored.map (·.stopReason)
          = ((dominantProgressAbort epoch.pendingAborts).map (·.stopReason)).filter
              (!·.reviewable) := by
  have hsteps : ∀ step ∈ epoch.committedSteps, step.Replayable := by
    cases hclosure : epoch.closureOnly isTaskClosure with
    | true =>
        have hnil : epoch.committedSteps = [] :=
          List.isEmpty_iff.mp (Bool.and_eq_true_iff.mp hclosure).1
        simp [hnil]
    | false =>
        rw [commit, hclosure] at hcommit
        exact replayable_of_committed hcommit
  set pendingReasons := (epoch.pendingAborts.filterMap id).map (·.stopReason) with hpending
  obtain ⟨reasons, hreasons, hmem⟩ : ∃ reasons,
      ((if row'.progressAborted then pendingReasons.map (·.value) ++ [storedReason row'.toRecord]
        else pendingReasons.map (·.value)).mapM stopReasonOf = .ok reasons)
      ∧ ∀ r, r ∈ reasons ↔ r ∈ pendingReasons := by
    obtain haborted | ⟨abort, habort, haborted, hreason⟩ := hread.marked
    · refine ⟨pendingReasons, ?_, fun _ => Iff.rfl⟩
      rw [haborted]
      exact mapM_stopReasonOf pendingReasons
    · refine ⟨pendingReasons ++ [abort.stopReason], ?_, fun r => ?_⟩
      · have hstored : storedReason row'.toRecord = abort.stopReason.value := by
          simp [storedReason, ProgressEpochRow.toRecord, readKey, Dict.get?, Json.ofOption, hreason]
        rw [if_pos haborted, hstored]
        simpa using mapM_stopReasonOf (pendingReasons ++ [abort.stopReason])
      · have hin := (dominant_reason_iff.mp (by rw [habort]; rfl)).1
        have hin := mem_pendingReasons.mpr hin
        constructor
        · intro hr
          rcases List.mem_append.mp hr with hr | hr
          · exact hr
          · rw [List.mem_singleton.mp hr]
            exact hin
        · exact fun hr => List.mem_append_left _ hr
  have hpendingTexts : textList (readKey (epoch.commitInput isTaskClosure a goalText)
      "pending_stop_reasons") = .ok (pendingReasons.map (·.value)) := by
    rw [← textList_texts, hpending, List.map_map]
    rfl
  have hrow : commitInputOf row'.toRecord = .ok (epoch.commitInput isTaskClosure a goalText) := by
    simp [commitInputOf, ProgressEpochRow.toRecord, readKey, Dict.get?, hread.commitInput, hinput,
      commitInput]
  have happly : applyOf (epoch.commitInput isTaskClosure a goalText)
      = .ok (!epoch.closureOnly isTaskClosure) := by
    simp [applyOf, commitInput, readKey, Dict.get?]
  have hbaseline : baselineOf (epoch.commitInput isTaskClosure a goalText)
      = .ok (a.facts goalText) := by
    simp [baselineOf, commitInput, readKey, Dict.get?, factsOf_toJson]
  have hstepsOf : stepsOf (epoch.commitInput isTaskClosure a goalText)
      (!epoch.closureOnly isTaskClosure) = .ok epoch.committedSteps := by
    have hclosed : epoch.closureOnly isTaskClosure = true → epoch.committedSteps = [] := fun h =>
      List.isEmpty_iff.mp (Bool.and_eq_true_iff.mp h).1
    simpa [stepsOf, commitInput, readKey, Dict.get?, mapM_stepOf hsteps] using hclosed
  have hnovel : textList (readKey row'.toRecord "novel_epistemic_keys")
      = .ok row.novelEpistemicKeys := by
    rw [← hread.novel]
    exact textList_texts row'.novelEpistemicKeys
  have houtcome : outcomeOf row'.toRecord = .ok (epoch.materialChanged, row'.progressAborted) := by
    simp [outcomeOf, ProgressEpochRow.toRecord, readKey, Dict.get?, hread.materialChanged,
      hmaterial]
  refine ⟨(dominantProgressAbort (restoredStops reasons)).map (bindStop row'.toRecord), ?_, ?_⟩
  · simp only [replayProgressEpoch, hrow, happly, hbaseline, hstepsOf, hnovel, houtcome,
      hpendingTexts, hreasons, ProgressAuthority.restoreFacts_facts, bind, Except.bind, pure,
      Except.pure]
    cases hclosure : epoch.closureOnly isTaskClosure with
    | true =>
        have hsame : a = out.authority := by simpa [commit, hclosure] using hcommit
        rw [← hsame]
        rfl
    | false =>
        have hlive : a.commitSteps epoch.committedSteps row.novelEpistemicKeys
            epoch.materialChanged = .ok out.authority := by simpa [commit, hclosure] using hcommit
        simp only [hlive]
        rfl
  · rw [← dominant_nonreviewable fun r => (hmem r).trans mem_pendingReasons, Option.map_map]
    rfl

/-- Restart restores the authority: the record that is read back replays to
the facts of the live authority and to its stop, on both sides of the mark. -/
theorem replay_finalized
    (h : epoch.finalize isTaskClosure a goalText st scope now storeFault markFault = .ok out)
    (hstored : out.stored = some (row, true)) {st' : ProgressStore}
    (hst : st' = out.beforeMark ∨ st' = out.store) :
    ∃ row' restored,
      st'.getProgressEpoch scope row.epochId = some row'
        ∧ replayProgressEpoch row'.toRecord = .ok (out.authority.facts goalText, restored)
        ∧ (out.markFailed = false →
            restored.map (·.stopReason)
              = (out.abort.map (·.stopReason)).filter (!·.reviewable)) := by
  obtain ⟨hcreated, hcommit, hmarkAbort⟩ := finalize_inserted h hstored
  have hinserted := ProgressStore.createProgressEpoch_inserted hcreated
  obtain ⟨row', hfound, hread⟩ : ∃ row', st'.getProgressEpoch scope row.epochId = some row'
      ∧ ProgressStore.ReadBack row row' (dominantProgressAbort epoch.pendingAborts) := by
    rcases hst with rfl | rfl
    · exact ⟨row, hinserted.getProgressEpoch, hinserted.readBack _⟩
    · exact markAbort_store hinserted hmarkAbort
  obtain ⟨restored, hreplay, hreason⟩ := replay_readBack hcommit hinserted.materialChanged
    hinserted.commitInput hread
  refine ⟨row', restored, hfound, hreplay, fun hmark => ?_⟩
  rw [hreason, markAbort_reason hmarkAbort hmark]

/-- One observation, and a transport that gave up under it. -/
def strandedEpoch : ProgressEpoch where
  epochId := "epoch-1"
  runId := "run-1"
  modelTurn := 1
  preBodyFingerprint := none
  members := [
    { toolName := "move_to"
      order := 0
      progressSteps := [
        { kind := .observe
          actionKey := [.str "move_to", .tuple [.int 1, .bool true, .none, .float (1 / 2)]]
          fingerprint := "1.0,64.0,0.0" }]
      observationHandle := none
      epistemicKeys := ["cave:entrance"]
      pendingAbort := some { message := "disconnected", stopReason := .bodyTransport }
      materialEvidence := []
      entry := [] }]
  budgetCheckpointId := none
  taskIdentityBound := true
  taskId := some "task-1"

theorem ordered_strandedEpoch : strandedEpoch.ordered = strandedEpoch.members := by
  simp [ordered, strandedEpoch]

theorem finalize_strandedEpoch : ∃ out row,
    strandedEpoch.finalize (fun _ => false) {} "dig" ⟨[], [], 0⟩ ⟨"scope", "bot"⟩ "now" false false
        = .ok out
      ∧ out.stored = some (row, true) ∧ row.epochId = "epoch-1" ∧ out.markFailed = false
      ∧ out.authority.epistemicSteps = 1
      ∧ out.abort.map (·.stopReason) = some .bodyTransport := by
  simp only [finalize, record, commitInput, commit, committedSteps, materialChanged, pendingAborts,
    closureOnly, postFingerprint, ordered_strandedEpoch]
  exact ⟨_, _, rfl, rfl, by decide, rfl, by decide, by decide⟩
theorem replay_finalized_stranded : ∃ out row row' restored,
    strandedEpoch.finalize (fun _ => false) {} "dig" ⟨[], [], 0⟩ ⟨"scope", "bot"⟩ "now" false false
        = .ok out
      ∧ out.stored = some (row, true)
      ∧ out.store.getProgressEpoch ⟨"scope", "bot"⟩ "epoch-1" = some row'
      ∧ replayProgressEpoch row'.toRecord = .ok (out.authority.facts "dig", restored)
      ∧ out.authority.epistemicSteps = 1
      ∧ restored.map (·.stopReason) = some .bodyTransport := by
  obtain ⟨out, row, hfinal, hstored, hid, hmark, hsteps, habort⟩ := finalize_strandedEpoch
  obtain ⟨row', restored, hfound, hreplay, hreason⟩ := replay_finalized hfinal hstored (.inr rfl)
  refine ⟨out, row, row', restored, hfinal, hstored, hid ▸ hfound, hreplay, hsteps, ?_⟩
  rw [hreason hmark, habort]
  rfl

end ProgressEpoch

end MineBot
