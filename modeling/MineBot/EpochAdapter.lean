import MineBot.History
import MineBot.ProgressEpochs

/-!
# Which epoch is settled when

`ProgressEpochAdapter` opens an epoch for the tool calls of a model
response, hands its members out, takes their results in any order, and
finalizes it with the last one. A new response closes the epoch before it.

`open` suspends at its awaits, so it is two steps: what it does before
them and what it does after them. Between the two every other call may
come, another `open` too. Members of old epochs stay in the state, since
their tools may still report; a member is known by its epoch and its
place in it.

What a result says about progress is read by functions that are
parameters here: nothing depends on their answers. What a call can do to
the epochs is said once (`Change`, `step_change`).
-/

namespace MineBot

namespace EpochAdapter

/-! ## Members and epochs -/

/-- `_ModelFunctionCall`. -/
structure FunctionCall where
  toolCallId : String
  toolName : String
  arguments : String

/-- The statuses a member is settled with. -/
inductive SettledStatus where
  | success
  | failure
  | partialProgress
  | timeout
  | decisionRequired
  | cancelled
  | rejected
  | background
  | bodyRecovery
deriving DecidableEq

def SettledStatus.value : SettledStatus → String
  | .success => "success"
  | .failure => "failure"
  | .partialProgress => "partial"
  | .timeout => "timeout"
  | .decisionRequired => "decision_required"
  | .cancelled => "cancelled"
  | .rejected => "rejected"
  | .background => "background"
  | .bodyRecovery => "body_recovery"

/-- A step that a capture took: a note has its outcome. -/
abbrev CapturedStep := { step : ProgressStep // step.kind = .note → step.success.isSome }

/-- `_ProgressEpochMember`; a pending one has no status. -/
structure Member where
  toolCallId : String
  toolName : String
  order : Nat
  bodyMutating : Bool
  arguments : String
  strategyEpochCondition : String
  claimed : Bool := false
  conflict : Bool
  status : Option SettledStatus := none
  success : Option Bool := none
  reason : String := ""
  progressSteps : List CapturedStep := []
  observationHandle : Option String := none
  epistemicKeys : List String := []
  pendingAbort : Option ProgressAbort := none
  failureEvidenceKey : Option String := none
  materialEvidence : List String := []

/-- `_ProgressEpoch`, over the states of the Body. -/
structure Epoch (β : Type) where
  epochId : String
  runId : String
  modelTurn : Nat
  preBodyFingerprint : Option String
  members : List Member
  preBodyState : Option β
  budgetCheckpointId : Option String
  taskIdentityBound : Bool
  taskId : Option String
  finalized : Bool := false

/-- What a tool is registered with. -/
structure Sidecar where
  source : String
  canMutateBody : Bool

/-- What the adapter asks its runtime, and the functions that read results. -/
structure Runtime (β : Type) where
  runId : String
  scope : RuntimeScope
  budgetCheckpointId : Option String
  registry : String → Option Sidecar
  fingerprint : β → String
  canonicalToolArguments : String → String
  tacticSignature : String → String → String
  /-- `str(value or "")` -/
  textOf : Option Json → String
  explicitEvidenceKeys : JsonObject → List String
  failureEvidenceKey : String → String → Option String
  materialProgressEvidence : Option β → Option β → Bool → List String
  combatProgressEvidence : JsonObject → List String
  /-- of one bot in one dimension -/
  sameBody : β → β → Bool

section

variable {β : Type} (rt : Runtime β)

def Runtime.canMutateBody (toolName : String) : Bool :=
  (rt.registry toolName).any (·.canMutateBody)

/-- `_task_closure_tool`. -/
def Runtime.taskClosureTool (toolName : String) : Bool :=
  (rt.registry toolName).any fun sidecar => sidecar.source = "agent.task" && !sidecar.canMutateBody

/-- `item.get(name) or item.get(other)`, where it is a text that is not empty. -/
def textField (item : JsonObject) (name other : String) : Option String :=
  let value := match item.get? name with
    | some value => if value.truthy then some value else item.get? other
    | none => item.get? other
  match value with
  | some (.str text) => if text = "" then none else some text
  | _ => none

/-- `_model_function_calls` of a response's output. -/
def modelFunctionCalls (output : List JsonObject) : List FunctionCall :=
  output.filterMap fun item =>
    if item.get? "type" = some (.str "function_call")
        ∨ item.get? "type" = some (.str "tool_call") then
      match textField item "name" "tool_name", textField item "call_id" "id" with
      | some toolName, some toolCallId =>
          let arguments := match item.get? "arguments" with
            | some (.str text) => text
            | _ => ""
          some ⟨toolCallId, toolName, arguments⟩
      | _, _ => none
    else none

/-- The members that `open` makes of the calls. -/
def membersOf (calls : List FunctionCall) (condition : String) : List Member :=
  let bodyCalls := calls.filter fun call => rt.canMutateBody call.toolName
  calls.zipIdx.map fun (call, index) =>
    { toolCallId := call.toolCallId
      toolName := call.toolName
      order := index
      bodyMutating := rt.canMutateBody call.toolName
      arguments := call.arguments
      strategyEpochCondition := condition
      conflict := 1 < bodyCalls.length && bodyCalls.any fun body =>
        body.toolCallId = call.toolCallId }

/-- A member's entry in the record. -/
def Member.entry (member : Member) : JsonObject :=
  [("tool_call_id", .str member.toolCallId),
   ("tool", .str member.toolName),
   ("status", .str ((member.status.map SettledStatus.value).getD "pending")),
   ("success", (member.success.map Json.bool).getD .null),
   ("reason", .str member.reason),
   ("body_mutating", .bool member.bodyMutating),
   ("task_closure", .bool (rt.taskClosureTool member.toolName)),
   ("strategy_epoch_condition", .str member.strategyEpochCondition),
   ("progress_step_count", .int member.progressSteps.length),
   ("observation_handle", .ofOption member.observationHandle),
   ("tactic_signature", .str (rt.tacticSignature member.toolName member.arguments)),
   ("failure_evidence_key", .ofOption member.failureEvidenceKey),
   ("material_evidence", .texts member.materialEvidence)]

/-- What `_finalize` reads of an epoch. -/
def Epoch.toProgressEpoch (epoch : Epoch β) : ProgressEpoch where
  epochId := epoch.epochId
  runId := epoch.runId
  modelTurn := epoch.modelTurn
  preBodyFingerprint := epoch.preBodyFingerprint
  members := epoch.members.map fun member =>
    { toolName := member.toolName
      order := member.order
      progressSteps := member.progressSteps.map Subtype.val
      observationHandle := member.observationHandle
      epistemicKeys := member.epistemicKeys
      pendingAbort := member.pendingAbort
      materialEvidence := member.materialEvidence
      entry := member.entry rt }
  budgetCheckpointId := epoch.budgetCheckpointId
  taskIdentityBound := epoch.taskIdentityBound
  taskId := epoch.taskId

/-- The epoch has bookkeeping calls only, which move no counter. -/
def Epoch.closureOnly (epoch : Epoch β) : Bool :=
  (epoch.toProgressEpoch rt).closureOnly rt.taskClosureTool

/-- Every member has left the pending state. -/
def Epoch.Settled (epoch : Epoch β) : Prop := ∀ member ∈ epoch.members, member.status ≠ none

end

/-! ## The adapter -/

/-- A call of `open` at its awaits. -/
structure Suspended where
  epochId : String
  calls : List FunctionCall
  nonempty : calls ≠ []

/-- A member: its epoch, in the order of their opening, and its place in it. -/
structure MemberRef where
  epoch : Nat
  order : Nat
deriving DecidableEq

/-- `ProgressEpochAdapter`, with every epoch it opened, the authority and the
archive. -/
structure State (β : Type) where
  epochs : List (Epoch β) := []
  active : Option Nat := none
  modelTurn : Nat := 0
  suspended : List Suspended := []
  authority : ProgressAuthority := {}
  store : ProgressStore := ⟨[], [], 0⟩

/-- What `_finalize` finds: the goal, the clock and the archive's faults. -/
structure Circumstances where
  goalText : String
  now : String
  storeFault : Bool
  markFault : Bool

/-- What a call does to the outside. -/
inductive Effect (β : Type) where
  | claimed (member : MemberRef)
  | opened (epoch : Nat)
  /-- the record of the epoch is passed to the archive -/
  | archived (n : Nat) (epoch : Epoch β)
  /-- the steps of the epoch are committed to the authority -/
  | committed (n : Nat)

/-- A call's effects, the stop it returns, and whether it raises. -/
structure Outcome (β : Type) where
  effects : List (Effect β) := []
  abort : Option ProgressAbort := none
  raised : Bool := false

section

variable {β : Type} (rt : Runtime β)

def State.epoch? (s : State β) (n : Nat) : Option (Epoch β) := s.epochs[n]?

def State.activeEpoch (s : State β) : Option (Nat × Epoch β) :=
  s.active.bind fun n => (s.epoch? n).map (n, ·)

def State.member? (s : State β) (ref : MemberRef) : Option Member :=
  (s.epoch? ref.epoch).bind fun epoch => epoch.members[ref.order]?

def State.modifyEpoch (s : State β) (n : Nat) (f : Epoch β → Epoch β) : State β :=
  { s with epochs := s.epochs.modify n f }

def Epoch.modifyMember (epoch : Epoch β) (order : Nat) (f : Member → Member) : Epoch β :=
  { epoch with members := epoch.members.modify order f }

def State.modifyMember (s : State β) (ref : MemberRef) (f : Member → Member) : State β :=
  s.modifyEpoch ref.epoch (·.modifyMember ref.order f)

/-- `_finalize`. A commit that fails its assertion leaves the epoch active; the
captured steps do not let it. -/
def finalizeEpoch (env : Circumstances) (n : Nat) (epoch : Epoch β) (s : State β) :
    Outcome β × State β :=
  if epoch.finalized then ({}, s)
  else
    match (epoch.toProgressEpoch rt).finalize rt.taskClosureTool s.authority env.goalText s.store
      rt.scope env.now env.storeFault env.markFault with
    | .error _ => ({ effects := [.archived n epoch], raised := true }, s)
    | .ok out =>
        ({ effects := .archived n epoch :: if epoch.closureOnly rt then [] else [.committed n]
           abort := out.abort },
          { s.modifyEpoch n (fun epoch => { epoch with finalized := true }) with
            active := none
            authority := out.authority
            store := out.store })

def Member.cancelPending (reason : String) (member : Member) : Member :=
  if member.status = none then
    { member with status := some .cancelled, success := some false, reason := reason }
  else member

def Epoch.cancelPending (reason : String) (epoch : Epoch β) : Epoch β :=
  { epoch with members := epoch.members.map (·.cancelPending reason) }

/-- `finalize_unsettled`. -/
def finalizeUnsettled (reason : String) (env : Circumstances) (s : State β) :
    Outcome β × State β :=
  match s.activeEpoch with
  | none => ({}, s)
  | some (n, epoch) =>
      if epoch.finalized then ({}, s)
      else
        finalizeEpoch rt env n (epoch.cancelPending reason)
          (s.modifyEpoch n (·.cancelPending reason))

/-- What a tool reports to `settle`. -/
structure Report (β : Type) where
  result : JsonObject
  modelResult : JsonObject
  progressSteps : List CapturedStep := []
  status : Option SettledStatus := none
  pendingAbort : Option ProgressAbort := none
  postState : Option β := none

/-- What `settle` makes of a pending member, in the active epoch. -/
def settled (epoch : Epoch β) (report : Report β) (member : Member) : Member :=
  let success := (report.result.get? "success").any Json.truthy
  let status := report.status.getD (if success then .success else .failure)
  let reason := rt.textOf (report.result.get? "reason")
  let handle := match report.modelResult.get? "observationHandle" with
    | some (.str text) => if text = "" then none else some text
    | _ => none
  let failureKey :=
    if member.bodyMutating ∧ status = .failure ∧ report.pendingAbort.isNone then
      rt.failureEvidenceKey (rt.tacticSignature member.toolName member.arguments) reason
    else none
  let explicit := rt.explicitEvidenceKeys report.result
  let epistemicKeys := match failureKey with
    | some key => (explicit ++ [key]).eraseDups
    | none => explicit
  let material :=
    if (status = .success ∨ status = .failure ∨ status = .partialProgress)
        ∧ reason ≠ "preempted" then
      rt.materialProgressEvidence epoch.preBodyState report.postState
          (member.bodyMutating && status = .success)
        ++ if member.bodyMutating ∧ member.toolName = "engage_entity"
            ∧ report.pendingAbort.isNone then
          match epoch.preBodyState, report.postState with
          | some pre, some post =>
              if rt.sameBody pre post then rt.combatProgressEvidence report.result else []
          | _, _ => []
        else []
    else []
  { member with
    status := some status
    success := some success
    reason := reason
    progressSteps := report.progressSteps
    observationHandle := handle
    epistemicKeys := epistemicKeys
    failureEvidenceKey := failureKey
    pendingAbort := report.pendingAbort
    materialEvidence := material }

/-- `settle`. -/
def settle (ref : MemberRef) (report : Report β) (env : Circumstances) (s : State β) :
    Outcome β × State β :=
  match s.activeEpoch, s.member? ref with
  | some (n, epoch), some member =>
      if epoch.finalized ∨ member.status ≠ none then ({}, s)
      else
        let s := s.modifyMember ref (settled rt epoch report)
        match s.epoch? n with
        | none => ({}, s)
        | some epoch =>
            if epoch.members.any (·.status = none) then ({}, s)
            else finalizeEpoch rt env n epoch s
  | _, _ => ({}, s)

/-- `cancel_member`. -/
def cancelMember (ref : MemberRef) (reason : String) (env : Circumstances) (s : State β) :
    Outcome β × State β :=
  let result : JsonObject :=
    [("success", .bool false), ("reason", .str reason), ("canRetry", .bool true),
     ("nextSuggestion", .null), ("metrics", .obj [])]
  settle rt ref { result := result, modelResult := result, status := some .cancelled } env s

/-- The place of the member that `claim_member` finds: by its id, else by its
arguments, else by its name alone. -/
def memberToClaim (members : List Member) (toolName inputJson : String)
    (nativeToolCallId : Option String) : Option (Nat × Member) :=
  let indexed := members.zipIdx.map fun (member, i) => (i, member)
  let native := nativeToolCallId.bind fun id =>
    indexed.reverse.find? fun (_, member) => member.toolCallId = id
  match native with
  | some (i, member) => if member.toolName = toolName then some (i, member) else none
  | none =>
      let candidates := indexed.filter fun (_, member) =>
        !member.claimed && member.toolName = toolName
      let exact := candidates.filter fun (_, member) =>
        rt.canonicalToolArguments member.arguments = rt.canonicalToolArguments inputJson
      (exact ++ candidates).head?

/-- `claim_member`. -/
def claimMember (toolName inputJson : String) (nativeToolCallId : Option String) (s : State β) :
    Outcome β × State β :=
  match s.activeEpoch with
  | none => ({}, s)
  | some (n, epoch) =>
      match memberToClaim rt epoch.members toolName inputJson nativeToolCallId with
      | none => ({}, s)
      | some (i, member) =>
          if member.claimed then ({}, s)
          else
            ({ effects := [.claimed ⟨n, i⟩] },
              s.modifyMember ⟨n, i⟩ fun member => { member with claimed := true })

/-- `open` up to its first await. -/
def openStart (output : List JsonObject) (epochId : String) (env : Circumstances) (s : State β) :
    Outcome β × State β :=
  let calls := (modelFunctionCalls output).filter fun call => (rt.registry call.toolName).isSome
  if h : calls = [] then ({}, s)
  else
    let (out, s) := finalizeUnsettled rt "next_model_response" env s
    if out.raised then (out, s)
    else
      ({ out with abort := none }, { s with
        modelTurn := s.modelTurn + 1
        suspended := s.suspended ++ [⟨epochId, calls, h⟩] })

/-- What `open` reads at its awaits. -/
structure OpenReads (β : Type) where
  taskIdentityBound : Bool
  taskId : Option String
  preState : Option β
  strategyEpochCondition : String

/-- `open` after its last await: the epoch becomes active. -/
def openFinish (i : Nat) (reads : OpenReads β) (s : State β) : Outcome β × State β :=
  match s.suspended[i]? with
  | none => ({}, s)
  | some opening =>
      let epoch : Epoch β :=
        { epochId := opening.epochId
          runId := rt.runId
          modelTurn := s.modelTurn
          preBodyFingerprint := reads.preState.map rt.fingerprint
          members := membersOf rt opening.calls reads.strategyEpochCondition
          preBodyState := reads.preState
          budgetCheckpointId := rt.budgetCheckpointId
          taskIdentityBound := reads.taskIdentityBound
          taskId := reads.taskId }
      ({ effects := [.opened s.epochs.length] },
        { s with
          epochs := s.epochs ++ [epoch]
          active := some s.epochs.length
          suspended := s.suspended.eraseIdx i })

/-- The calls on an adapter. -/
inductive Call (β : Type) where
  | openStart (output : List JsonObject) (epochId : String) (env : Circumstances)
  | openFinish (i : Nat) (reads : OpenReads β)
  /-- an await of `open` raises -/
  | openFail (i : Nat)
  | claimMember (toolName inputJson : String) (nativeToolCallId : Option String)
  | settle (ref : MemberRef) (report : Report β) (env : Circumstances)
  | cancelMember (ref : MemberRef) (reason : String) (env : Circumstances)
  | finalizeUnsettled (reason : String) (env : Circumstances)

def step (s : State β) : Call β → Outcome β × State β
  | .openStart output epochId env => openStart rt output epochId env s
  | .openFinish i reads => openFinish rt i reads s
  | .openFail i => ({}, { s with suspended := s.suspended.eraseIdx i })
  | .claimMember toolName inputJson id => claimMember rt toolName inputJson id s
  | .settle ref report env => settle rt ref report env s
  | .cancelMember ref reason env => cancelMember rt ref reason env s
  | .finalizeUnsettled reason env => finalizeUnsettled rt reason env s

end

/-! ## Finalizing does not raise -/

/-- Every note has its outcome. -/
def Outcomes (steps : List ProgressStep) : Prop :=
  ∀ step ∈ steps, step.kind = .note → step.success.isSome

theorem mem_of_getLast?_filter {steps : List ProgressStep} {p : ProgressStep → Bool}
    {step : ProgressStep} (h : (steps.filter p).getLast? = some step) :
    step ∈ steps ∧ p step = true :=
  List.mem_filter.mp (List.mem_of_getLast? h)

theorem outcomes_collapsed {members : List EpochMember}
    (h : Outcomes (members.flatMap (·.progressSteps))) :
    Outcomes (collapsedEpochProgressSteps members) := by
  simp only [collapsedEpochProgressSteps]
  split
  · next hlast => exact fun step hstep => absurd hstep List.not_mem_nil
  · next last hlast =>
    split
    · next terminal hterminal =>
      intro step hstep _
      obtain ⟨hmem, hnote⟩ := mem_of_getLast?_filter hterminal
      obtain rfl := List.mem_singleton.mp hstep
      exact h terminal hmem (by simpa using (of_decide_eq_true hnote).1)
    · split
      · intro step hstep hkind
        obtain rfl := List.mem_singleton.mp hstep
        cases hkind
      · next hobserve =>
        intro step hstep _
        obtain rfl := List.mem_singleton.mp hstep
        have hmem := List.mem_of_getLast? hlast
        refine h last hmem ?_
        have hnone := List.getLast?_eq_none_iff.mp hobserve
        have hnot := List.filter_eq_nil_iff.mp hnone last hmem
        cases hkind : last.kind with
        | observe => exact absurd (by simp [hkind]) hnot
        | note => rfl

theorem foldlM_commitStep_ok {steps : List ProgressStep} (h : Outcomes steps) :
    ∀ a : ProgressAuthority, ∃ a', steps.foldlM ProgressAuthority.commitStep a = .ok a' := by
  induction steps with
  | nil => exact fun a => ⟨a, rfl⟩
  | cons step steps ih =>
      intro a
      have hstep : ∃ a', a.commitStep step = .ok a' := by
        obtain ⟨kind, actionKey, fingerprint, success, neutral⟩ := step
        cases kind with
        | observe => exact ⟨_, rfl⟩
        | note =>
            have houtcome := h ⟨.note, actionKey, fingerprint, success, neutral⟩
              (List.mem_cons_self ..) rfl
            obtain ⟨outcome, rfl⟩ := Option.isSome_iff_exists.mp houtcome
            exact ⟨_, rfl⟩
      obtain ⟨a', ha'⟩ := hstep
      obtain ⟨a'', ha''⟩ := ih (fun s hs => h s (List.mem_cons_of_mem _ hs)) a'
      exact ⟨a'', by rw [List.foldlM_cons, ha']; exact ha''⟩

theorem commitSteps_ok {steps : List ProgressStep} (h : Outcomes steps) (a : ProgressAuthority)
    (novel : List String) (materialChanged : Bool) :
    ∃ a', a.commitSteps steps novel materialChanged = .ok a' := by
  obtain ⟨a', ha'⟩ := foldlM_commitStep_ok h a
  simp only [ProgressAuthority.commitSteps, ha', bind, Except.bind]
  split
  · exact ⟨_, rfl⟩
  · split <;> exact ⟨_, rfl⟩

section

variable {β : Type} (rt : Runtime β)

theorem outcomes_committedSteps (epoch : Epoch β) :
    Outcomes (epoch.toProgressEpoch rt).committedSteps := by
  refine outcomes_collapsed fun step hstep hnote => ?_
  obtain ⟨member, hmember, hsteps⟩ := List.mem_flatMap.mp hstep
  rw [ProgressEpoch.ordered, List.mem_mergeSort] at hmember
  obtain ⟨member, -, rfl⟩ := List.mem_map.mp hmember
  obtain ⟨captured, -, rfl⟩ := List.mem_map.mp hsteps
  exact captured.property hnote

theorem finalize_ok (epoch : Epoch β) (a : ProgressAuthority) (env : Circumstances)
    (st : ProgressStore) :
    ∃ out, (epoch.toProgressEpoch rt).finalize rt.taskClosureTool a env.goalText st rt.scope env.now
      env.storeFault env.markFault = .ok out := by
  have hcommit : ∀ novel, ∃ a', (epoch.toProgressEpoch rt).commit rt.taskClosureTool a novel
      = .ok a' := by
    intro novel
    rw [ProgressEpoch.commit]
    split
    · exact ⟨a, rfl⟩
    · exact commitSteps_ok (outcomes_committedSteps rt epoch) a novel _
  simp only [ProgressEpoch.finalize, bind, Except.bind]
  split
  · next e herror =>
    obtain ⟨a', ha'⟩ := hcommit _
    exact absurd (herror.symm.trans ha') nofun
  · exact ⟨_, rfl⟩

/-- A finalized epoch is passed to the archive, and committed unless it is
bookkeeping. -/
theorem finalizeEpoch_eq (env : Circumstances) (n : Nat) (epoch : Epoch β) (s : State β)
    (h : epoch.finalized = false) :
    ∃ out : ProgressEpoch.Finalized,
      finalizeEpoch rt env n epoch s
        = ({ effects := .archived n epoch :: if epoch.closureOnly rt then [] else [.committed n]
             abort := out.abort },
            { s.modifyEpoch n (fun epoch => { epoch with finalized := true }) with
              active := none
              authority := out.authority
              store := out.store }) := by
  obtain ⟨out, hout⟩ := finalize_ok rt epoch s.authority env s.store
  refine ⟨out, ?_⟩
  rw [finalizeEpoch, if_neg (by simp [h]), hout]

/-! ## What a call can do -/

/-- Which members are claimed. -/
def Epoch.claims (epoch : Epoch β) : List Bool := epoch.members.map (·.claimed)

/-- The members of the two are claimed alike. -/
def SameClaims (epoch epoch' : Epoch β) : Prop := epoch'.claims = epoch.claims

/-- The active epoch still waits for a member. -/
def Waits (s : State β) : Prop :=
  ∀ n, s.active = some n → ∃ epoch, s.epochs[n]? = some epoch ∧ epoch.finalized = false
    ∧ ∃ member ∈ epoch.members, member.status = none

/-- No epoch is opened or finalized. -/
def Quiet (s s' : State β) : Prop :=
  s'.active = s.active ∧ s'.authority = s.authority ∧ s'.store = s.store

/-- What a call can do to the epochs. -/
inductive Change (s : State β) : Outcome β → State β → Prop where
  | keep {out : Outcome β} {s' : State β} :
      Quiet s s' → out.effects = [] → s'.epochs = s.epochs → Change s out s'
  /-- a member of the active epoch is handed out -/
  | claim {n i : Nat} {epoch : Epoch β} {member : Member} {out : Outcome β} {s' : State β} :
      Quiet s s' → s.active = some n → s.epochs[n]? = some epoch →
      epoch.members[i]? = some member → member.claimed = false → out.effects = [.claimed ⟨n, i⟩] →
      s'.epochs = (s.modifyMember ⟨n, i⟩ fun member => { member with claimed := true }).epochs →
      Change s out s'
  /-- a pending member is settled, and not the last one -/
  | report {ref : MemberRef} {member : Member} {f : Member → Member} {out : Outcome β}
      {s' : State β} :
      Quiet s s' → s.member? ref = some member → member.status = none →
      (∀ member, (f member).claimed = member.claimed) → out.effects = [] →
      s'.epochs = (s.modifyMember ref f).epochs → Waits s' → Change s out s'
  /-- the active epoch is finalized -/
  | close {n : Nat} {epoch epoch' : Epoch β} {out : Outcome β} {s' : State β} :
      s.active = some n → s.epochs[n]? = some epoch → epoch.finalized = false →
      epoch'.Settled → SameClaims epoch epoch' →
      out.effects = .archived n epoch' :: (if epoch'.closureOnly rt then [] else [.committed n]) →
      (∀ m, s'.epochs[m]? = if m = n then some { epoch' with finalized := true }
        else s.epochs[m]?) →
      s'.active = none → Change s out s'
  /-- an epoch becomes active -/
  | activate {epoch : Epoch β} {out : Outcome β} {s' : State β} :
      s.suspended ≠ [] → (∀ member ∈ epoch.members, member.status = none ∧ member.claimed = false) →
      epoch.members ≠ [] → epoch.finalized = false →
      out.effects = [.opened s.epochs.length] → s'.epochs = s.epochs ++ [epoch] →
      s'.active = some s.epochs.length → Change s out s'

variable {rt} {s : State β}

theorem activeEpoch_eq_some {n : Nat} {epoch : Epoch β} (h : s.activeEpoch = some (n, epoch)) :
    s.active = some n ∧ s.epochs[n]? = some epoch := by
  rw [State.activeEpoch, Option.bind_eq_some_iff] at h
  obtain ⟨m, hactive, hmap⟩ := h
  obtain ⟨epoch', hepoch, heq⟩ := Option.map_eq_some_iff.mp hmap
  obtain ⟨rfl, rfl⟩ := Prod.mk.inj heq
  exact ⟨hactive, hepoch⟩

theorem getElem?_modifyEpoch (n m : Nat) (f : Epoch β → Epoch β) :
    (s.modifyEpoch n f).epochs[m]? = if n = m then s.epochs[m]?.map f else s.epochs[m]? := by
  rw [State.modifyEpoch, List.getElem?_modify]
  split <;> simp

theorem getElem?_finalized {n : Nat} {epoch : Epoch β} (h : s.epochs[n]? = some epoch) (m : Nat) :
    (s.modifyEpoch n fun epoch => { epoch with finalized := true }).epochs[m]?
      = if m = n then some { epoch with finalized := true } else s.epochs[m]? := by
  rw [getElem?_modifyEpoch]
  by_cases hm : m = n
  · subst hm
    rw [if_pos rfl, if_pos rfl, h]
    rfl
  · rw [if_neg (Ne.symm hm), if_neg hm]

theorem finalizeEpoch_change {n : Nat} {epoch epoch' : Epoch β} {s₁ : State β}
    (hactive : s.active = some n) (hepoch : s.epochs[n]? = some epoch)
    (hopen : epoch.finalized = false) (hopen' : epoch'.finalized = false)
    (hsettled : epoch'.Settled) (hclaims : SameClaims epoch epoch')
    (hs₁ : ∀ m, s₁.epochs[m]? = if m = n then some epoch' else s.epochs[m]?)
    (env : Circumstances) :
    Change rt s (finalizeEpoch rt env n epoch' s₁).1 (finalizeEpoch rt env n epoch' s₁).2 := by
  obtain ⟨out, hout⟩ := finalizeEpoch_eq rt env n epoch' s₁ hopen'
  rw [hout]
  have hn : s₁.epochs[n]? = some epoch' := by rw [hs₁, if_pos rfl]
  refine .close hactive hepoch hopen hsettled hclaims rfl (fun m => ?_) rfl
  have hm := getElem?_finalized hn m
  rw [hs₁ m] at hm
  rw [show _ = _ from hm]
  split <;> rfl

theorem cancelPending_settled (reason : String) (epoch : Epoch β) :
    (epoch.cancelPending reason).Settled := by
  intro member hmember
  obtain ⟨old, -, rfl⟩ := List.mem_map.mp hmember
  rw [Member.cancelPending]
  split
  · exact Option.some_ne_none _
  · assumption

theorem sameClaims_cancelPending (reason : String) (epoch : Epoch β) :
    SameClaims epoch (epoch.cancelPending reason) := by
  rw [SameClaims, Epoch.claims, Epoch.cancelPending, List.map_map]
  refine List.map_congr_left fun member _ => ?_
  rw [Function.comp, Member.cancelPending]
  split <;> rfl

theorem finalizeUnsettled_change (reason : String) (env : Circumstances) :
    Change rt s (finalizeUnsettled rt reason env s).1 (finalizeUnsettled rt reason env s).2 := by
  rw [finalizeUnsettled]
  split
  · exact .keep ⟨rfl, rfl, rfl⟩ rfl rfl
  · next n epoch hepoch =>
    obtain ⟨hactive, hget⟩ := activeEpoch_eq_some hepoch
    split
    · exact .keep ⟨rfl, rfl, rfl⟩ rfl rfl
    · next hopen =>
      have hopen : epoch.finalized = false := Bool.eq_false_iff.mpr hopen
      have hopen' : (epoch.cancelPending reason).finalized = false := hopen
      refine finalizeEpoch_change hactive hget hopen hopen' (cancelPending_settled reason epoch)
        (sameClaims_cancelPending reason epoch) (fun m => ?_) env
      rw [getElem?_modifyEpoch]
      by_cases hm : m = n
      · subst hm
        rw [if_pos rfl, if_pos rfl, hget]
        rfl
      · rw [if_neg (Ne.symm hm), if_neg hm]

theorem member?_eq_some {ref : MemberRef} {member : Member} (h : s.member? ref = some member) :
    ∃ epoch, s.epochs[ref.epoch]? = some epoch ∧ epoch.members[ref.order]? = some member :=
  Option.bind_eq_some_iff.mp h

theorem sameClaims_modify (epoch : Epoch β) (i : Nat) {f : Member → Member}
    (hf : ∀ member, (f member).claimed = member.claimed) :
    SameClaims epoch (epoch.modifyMember i f) := by
  rw [SameClaims, Epoch.claims, Epoch.claims]
  refine List.ext_getElem? fun j => ?_
  rw [List.getElem?_map, List.getElem?_map, Epoch.modifyMember, List.getElem?_modify]
  cases epoch.members[j]? with
  | none => rfl
  | some member =>
      by_cases hij : i = j
      · simp [hij, hf]
      · simp [hij]

theorem any_pending_iff (members : List Member) :
    members.any (·.status = none) = true ↔ ∃ member ∈ members, member.status = none := by
  simp

theorem settled_claimed (epoch : Epoch β) (report : Report β) (member : Member) :
    (settled rt epoch report member).claimed = member.claimed := rfl

theorem settle_change (h : Waits s) (ref : MemberRef) (report : Report β) (env : Circumstances) :
    Change rt s (settle rt ref report env s).1 (settle rt ref report env s).2 := by
  rw [settle]
  split
  · next n epoch member hepoch hmember =>
    obtain ⟨hactive, hget⟩ := activeEpoch_eq_some hepoch
    split
    · exact .keep ⟨rfl, rfl, rfl⟩ rfl rfl
    · next hopen =>
      obtain ⟨hopen, hpending⟩ := not_or.mp hopen
      have hopen : epoch.finalized = false := Bool.eq_false_iff.mpr hopen
      have hpending : member.status = none := not_not.mp hpending
      simp only [State.epoch?]
      by_cases href : ref.epoch = n
      · have hn : (s.modifyMember ref (settled rt epoch report)).epochs[n]?
            = some (epoch.modifyMember ref.order (settled rt epoch report)) := by
          rw [State.modifyMember, getElem?_modifyEpoch, if_pos href, hget]
          rfl
        rw [hn]
        simp only
        split
        · next hany =>
          refine .report ⟨rfl, rfl, rfl⟩ hmember hpending (settled_claimed epoch report) rfl rfl ?_
          intro m hm
          obtain rfl := Option.some.inj (hactive.symm.trans hm)
          exact ⟨_, hn, hopen, (any_pending_iff _).mp hany⟩
        · next hany =>
          refine finalizeEpoch_change hactive hget hopen
            (show (epoch.modifyMember _ _).finalized = false from hopen)
            (fun member hmember hnone => hany ((any_pending_iff _).mpr ⟨member, hmember, hnone⟩))
            (sameClaims_modify epoch ref.order (settled_claimed epoch report)) (fun m => ?_) env
          by_cases hm : m = n
          · rw [hm, if_pos rfl]
            exact hn
          · rw [if_neg hm, State.modifyMember, getElem?_modifyEpoch, if_neg]
            exact fun hrm => hm (hrm.symm.trans href)
      · have hn : (s.modifyMember ref (settled rt epoch report)).epochs[n]? = some epoch := by
          rw [State.modifyMember, getElem?_modifyEpoch, if_neg href, hget]
        rw [hn]
        simp only
        obtain ⟨epoch', hepoch', -, hwaits⟩ := h n hactive
        obtain rfl := Option.some.inj (hget.symm.trans hepoch')
        rw [if_pos ((any_pending_iff _).mpr hwaits)]
        refine .report ⟨rfl, rfl, rfl⟩ hmember hpending (settled_claimed epoch report) rfl rfl ?_
        intro m hm
        obtain rfl := Option.some.inj (hactive.symm.trans hm)
        exact ⟨_, hn, hopen, hwaits⟩
  · exact .keep ⟨rfl, rfl, rfl⟩ rfl rfl

theorem memberToClaim_mem {members : List Member} {toolName inputJson : String}
    {id : Option String} {i : Nat} {member : Member}
    (h : memberToClaim rt members toolName inputJson id = some (i, member)) :
    members[i]? = some member := by
  have hindexed : ∀ e : Nat × Member, e ∈ (members.zipIdx.map fun (m, i) => (i, m)) →
      members[e.1]? = some e.2 := by
    intro e he
    obtain ⟨⟨m, j⟩, hmem, rfl⟩ := List.mem_map.mp he
    exact List.mem_zipIdx_iff_getElem?.mp hmem
  rw [memberToClaim] at h
  simp only at h
  split at h
  · next j m hnative =>
    split at h
    · obtain ⟨id', -, hfind⟩ := Option.bind_eq_some_iff.mp hnative
      have hmem := List.mem_reverse.mp (List.mem_of_find?_eq_some hfind)
      obtain ⟨rfl, rfl⟩ := Prod.mk.inj (Option.some.inj h)
      exact hindexed _ hmem
    · cases h
  · have hmem := List.mem_of_mem_head? h
    rw [List.mem_append] at hmem
    rcases hmem with hexact | hcandidate
    · exact hindexed _ (List.mem_filter.mp (List.mem_filter.mp hexact).1).1
    · exact hindexed _ (List.mem_filter.mp hcandidate).1

theorem claimMember_change (toolName inputJson : String) (id : Option String) :
    Change rt s (claimMember rt toolName inputJson id s).1
      (claimMember rt toolName inputJson id s).2 := by
  rw [claimMember]
  split
  · exact .keep ⟨rfl, rfl, rfl⟩ rfl rfl
  · next n epoch hepoch =>
    obtain ⟨hactive, hget⟩ := activeEpoch_eq_some hepoch
    split
    · exact .keep ⟨rfl, rfl, rfl⟩ rfl rfl
    · next i member hmember =>
      split
      · exact .keep ⟨rfl, rfl, rfl⟩ rfl rfl
      · next hclaimed =>
        exact .claim ⟨rfl, rfl, rfl⟩ hactive hget (memberToClaim_mem hmember)
          (Bool.eq_false_iff.mpr hclaimed) rfl rfl

/-- The awaits of `open` are no part of a change. -/
theorem Change.suspend {out out' : Outcome β} {s' : State β} (h : Change rt s out s')
    (hout : out'.effects = out.effects) (modelTurn : Nat) (suspended : List Suspended) :
    Change rt s out' { s' with modelTurn := modelTurn, suspended := suspended } := by
  cases h with
  | keep hquiet heffects hepochs => exact .keep hquiet (hout.trans heffects) hepochs
  | claim hquiet hactive hget hmember hclaimed heffects hepochs =>
      exact .claim hquiet hactive hget hmember hclaimed (hout.trans heffects) hepochs
  | report hquiet hmember hpending hf heffects hepochs hwaits =>
      exact .report hquiet hmember hpending hf (hout.trans heffects) hepochs hwaits
  | close hactive hget hopen hsettled hclaims heffects hepochs hnone =>
      exact .close hactive hget hopen hsettled hclaims (hout.trans heffects) hepochs hnone
  | activate hsuspended hfresh hne hopen heffects hepochs hactive =>
      exact .activate hsuspended hfresh hne hopen (hout.trans heffects) hepochs hactive

theorem openStart_change (output : List JsonObject) (epochId : String) (env : Circumstances) :
    Change rt s (openStart rt output epochId env s).1 (openStart rt output epochId env s).2 := by
  rw [openStart]
  simp only
  split
  · exact .keep ⟨rfl, rfl, rfl⟩ rfl rfl
  · have hclose : Change rt s (finalizeUnsettled rt "next_model_response" env s).1
        (finalizeUnsettled rt "next_model_response" env s).2 :=
      finalizeUnsettled_change "next_model_response" env
    split
    · exact hclose
    · apply Change.suspend hclose
      rfl

theorem membersOf_fresh (calls : List FunctionCall) (condition : String) :
    ∀ member ∈ membersOf rt calls condition, member.status = none ∧ member.claimed = false := by
  intro member hmember
  obtain ⟨⟨call, index⟩, -, rfl⟩ := List.mem_map.mp hmember
  exact ⟨rfl, rfl⟩

theorem membersOf_ne_nil {calls : List FunctionCall} (h : calls ≠ []) (condition : String) :
    membersOf rt calls condition ≠ [] := by
  intro hnil
  have hlen := congrArg List.length hnil
  rw [membersOf, List.length_map, List.length_zipIdx, List.length_nil] at hlen
  exact h (List.length_eq_zero_iff.mp hlen)

theorem openFinish_change (i : Nat) (reads : OpenReads β) :
    Change rt s (openFinish rt i reads s).1 (openFinish rt i reads s).2 := by
  rw [openFinish]
  split
  · exact .keep ⟨rfl, rfl, rfl⟩ rfl rfl
  · next opening hopening =>
    have hsuspended : s.suspended ≠ [] := List.ne_nil_of_mem (List.mem_of_getElem? hopening)
    exact .activate hsuspended (membersOf_fresh opening.calls reads.strategyEpochCondition)
      (membersOf_ne_nil opening.nonempty reads.strategyEpochCondition) rfl rfl rfl rfl

theorem step_change (h : Waits s) (c : Call β) : Change rt s (step rt s c).1 (step rt s c).2 := by
  cases c with
  | openStart output epochId env => exact openStart_change output epochId env
  | openFinish i reads => exact openFinish_change i reads
  | openFail i => exact .keep ⟨rfl, rfl, rfl⟩ rfl rfl
  | claimMember toolName inputJson id => exact claimMember_change toolName inputJson id
  | settle ref report env => exact settle_change h ref report env
  | cancelMember ref reason env => exact settle_change h ref _ env
  | finalizeUnsettled reason env => exact finalizeUnsettled_change reason env

end

end EpochAdapter

end MineBot
