import MineBot.SessionAdmission

/-!
# Who controls the work

A friend may control the work it started. The session goes by
`goalPrincipalId`, the work is the foreground task, and the two are written
at different times: the one when a START or a REPLACE_GOAL is admitted, the
other when the intent is executed. `Matches` says that they speak of the same
friend; as long as each step keeps that (`Careful`), the admission matrix
gives what it says (`Fair`).
-/

namespace MineBot

namespace AgentSession

open Principals Table TaskDb

/-! ## Foreground tasks -/

section Tasks

variable {db db' : TaskDb} {scopeKey : String} {t : TaskRecord}

/-- Of each scope there is at most one foreground task, so it is the one read. -/
theorem currentTask_iff (h : TasksUnique db.tasks) :
    db.getForegroundTask scopeKey = some t ↔
      t ∈ db.tasks ∧ t.scopeKey = scopeKey ∧ t.status.foreground = true := by
  have hlen := h.2.length_filter_le_one scopeKey
  rw [List.filter_filter] at hlen
  have hrows : db.tasks.filter (fun t => t.scopeKey = scopeKey ∧ t.status.foreground) =
      db.tasks.filter fun t => decide (t.scopeKey = scopeKey) && t.status.foreground := by
    congr 1
    funext t
    simp
  have hmem : t ∈ db.tasks ∧ t.scopeKey = scopeKey ∧ t.status.foreground = true ↔
      t ∈ db.tasks.filter fun t => t.scopeKey = scopeKey ∧ t.status.foreground := by
    simp
  rw [hmem, getForegroundTask]
  rw [← hrows] at hlen
  generalize db.tasks.filter (fun t => t.scopeKey = scopeKey ∧ t.status.foreground) = rows at hlen
  cases rows with
  | nil => simp only [List.foldl_nil, reduceCtorEq, List.not_mem_nil]
  | cons r rest =>
      have hrest : rest = [] := List.length_eq_zero_iff.mp (Nat.le_zero.mp (Nat.succ_le_succ_iff.mp hlen))
      rw [hrest, List.mem_singleton, List.foldl_cons, List.foldl_nil, Option.some_inj]
      exact eq_comm

/-- At most the row of this task changes, and keeps its scope and who asked
for it. -/
def AmendsTask (taskId : String) (db db' : TaskDb) : Prop :=
  ∃ p f, db'.tasks = updateWhere p f db.tasks ∧ (∀ r, p r = true → r.taskId = taskId) ∧
    ∀ r, (f r).scopeKey = r.scopeKey ∧ (f r).requestedBy = r.requestedBy

theorem updateTaskAt_rows {taskId : String} {revision : Int} {f : TaskRecord → TaskRecord}
    (h : db.updateTaskAt taskId revision f = .ok db') :
    db'.tasks = updateWhere (atRevision taskId revision) f db.tasks := by
  obtain ⟨db₁, hwrite, h⟩ := bind_eq_ok.mp h
  obtain ⟨-, rfl⟩ := writeTasks_ok hwrite
  split at h
  · cases h
  · cases h
    rfl

theorem createCheckpoint_rows {taskId : String} {revision : Int}
    {disposition : CheckpointDisposition} {summary nextStep : String}
    {evidence waitFor : List String} {bodyFingerprint : Option (Option JsonObject)}
    {continuation : Option (Option ContinuationTerms)} {checkpointId : String} {now : Nat}
    (h : db.createCheckpoint taskId revision disposition summary nextStep evidence waitFor
      bodyFingerprint continuation checkpointId now = .ok db') :
    db'.tasks = updateWhere (atRevision taskId revision) (checkpointed checkpointId disposition now)
      db.tasks := by
  obtain ⟨db₁, hupdate, h⟩ := bind_eq_ok.mp h
  obtain ⟨_, -, h⟩ := bind_eq_ok.mp h
  obtain ⟨_, -, h⟩ := bind_eq_ok.mp h
  obtain ⟨_, -, h⟩ := bind_eq_ok.mp h
  have hrows := updateTaskAt_rows hupdate
  dsimp only at h
  split at h
  · cases h
    exact hrows
  · cases h

theorem insertSteps_tasks {rows : List PlanStepRow} (h : db.insertSteps rows = .ok db') :
    db'.tasks = db.tasks := by
  simp only [insertSteps] at h
  split at h
  · cases h
    rfl
  · cases h

theorem updatePlan_rows {taskId : String} {revision : Int} {summary : String}
    {steps : List (Option PlanStepInput)} {planId : String} {stepId : Nat → String} {now : Nat}
    (h : db.updatePlan taskId revision summary steps planId stepId now = .ok db') :
    ∃ p, db'.tasks = updateWhere p (planned planId now) db.tasks ∧
      ∀ r, p r = true → r.taskId = taskId := by
  obtain ⟨normalized, -, h⟩ := bind_eq_ok.mp h
  dsimp only at h
  split at h
  · cases h
  · split at h
    · split at h
      · cases h
      · obtain ⟨db₁, hplan, h⟩ := bind_eq_ok.mp h
        obtain ⟨db₂, hwrite, h⟩ := bind_eq_ok.mp h
        obtain ⟨-, rfl⟩ := writeTasks_ok hwrite
        have htasks : db₁.tasks = db.tasks := by
          simp only [insertPlan] at hplan
          split at hplan
          · cases hplan
            rfl
          · cases hplan
        refine ⟨fun r => r.taskId = taskId, ?_, fun r hr => of_decide_eq_true hr⟩
        rw [insertSteps_tasks h, htasks]
    · split at h
      · cases h
      · split at h
        · cases h
        · refine ⟨fun _ => false, ?_, fun _ hr => absurd hr Bool.false_ne_true⟩
          rw [insertSteps_tasks h, updateWhere_none fun _ _ => rfl]

/-- A foreground task whose row is amended is the one that was there. -/
theorem AmendsTask.currentTask (ha : AmendsTask t.taskId db db') (hu : TasksUnique db.tasks)
    (hu' : TasksUnique db'.tasks) (ht : db.getForegroundTask scopeKey = some t) {t' : TaskRecord}
    (ht' : db'.getForegroundTask scopeKey = some t') : t'.requestedBy = t.requestedBy := by
  obtain ⟨p, f, htasks, hp, hf⟩ := ha
  obtain ⟨hmem, -, -⟩ := (currentTask_iff hu).mp ht
  obtain ⟨hmem', hscope', hfore'⟩ := (currentTask_iff hu').mp ht'
  rw [htasks] at hmem'
  obtain ⟨r, hr, rfl⟩ := mem_updateWhere.mp hmem'
  by_cases hpr : p r = true
  · have hsame : r = t := hu.1.unique hr hmem (hp r hpr)
    rw [if_pos hpr, (hf r).2, hsame]
  · rw [if_neg hpr] at hscope' hfore' ⊢
    have hread : db.getForegroundTask scopeKey = some r :=
      (currentTask_iff hu).mpr ⟨hr, hscope', hfore'⟩
    rw [ht] at hread
    rw [Option.some.inj hread]

/-- The task a call of the store is about. -/
def taskOf : StoreCall → Option String
  | .transitionTask taskId .. | .createCheckpoint taskId .. | .updatePlan taskId .. => some taskId
  | .createTask .. | .replaceForegroundTask .. => none

/-- Work is about the foreground task. -/
theorem issue_work {op : WorkspaceOp} {call : StoreCall} (hop : WorkspaceOp.begins op = false)
    (h : op.issue db scopeKey = .ok (some call)) :
    ∃ t, db.getForegroundTask scopeKey = some t ∧ taskOf call = some t.taskId := by
  have hmap : ∀ {status authority}, (db.getForegroundTask scopeKey).map (fun task =>
      StoreCall.transitionTask task.taskId task.revision status authority) = some call →
      ∃ t, db.getForegroundTask scopeKey = some t ∧ taskOf call = some t.taskId := by
    intro status authority hmap
    obtain ⟨t, hread, rfl⟩ := Option.map_eq_some_iff.mp hmap
    exact ⟨t, hread, rfl⟩
  cases op with
  | start => cases hop
  | replace => cases hop
  | pause => exact hmap (Except.ok.inj h)
  | resume => exact hmap (Except.ok.inj h)
  | cancel => exact hmap (Except.ok.inj h)
  | complete => exact hmap (Except.ok.inj h)
  | checkpoint expectedTaskRevision =>
      simp only [WorkspaceOp.issue] at h
      split at h
      · cases h
      · next t hread =>
          repeat' split at h
          · cases h
          · cases h
          · cases h
          · cases h
            exact ⟨t, hread, rfl⟩
  | updatePlan =>
      simp only [WorkspaceOp.issue] at h
      split at h
      · cases h
      · next t hread =>
          cases h
          exact ⟨t, hread, rfl⟩

/-- What a call makes of the row it meets. -/
def rewritten (draws : Draws) (now : Nat) : StoreCall → TaskRecord → TaskRecord
  | .transitionTask _ _ status authority => transitioned status authority now
  | .createCheckpoint _ _ disposition .. => checkpointed draws.id disposition now
  | .updatePlan .. => planned draws.id now
  | .createTask .. | .replaceForegroundTask .. => id

theorem transact_rows {call : StoreCall} {draws : Draws} {now : Nat} {reread : Reread}
    {taskId : String} (hcall : taskOf call = some taskId)
    (h : call.transact db draws now = .ok (reread, db')) :
    ∃ p, db'.tasks = updateWhere p (rewritten draws now call) db.tasks ∧
      ∀ r, p r = true → r.taskId = taskId := by
  cases call with
  | createTask => cases hcall
  | replaceForegroundTask => cases hcall
  | transitionTask id revision status authority =>
      cases hcall
      obtain ⟨db₁, h, heq⟩ := bind_eq_ok.mp h
      cases heq
      exact ⟨_, updateTaskAt_rows h, fun r hr => (of_decide_eq_true hr).1⟩
  | createCheckpoint =>
      cases hcall
      obtain ⟨db₁, h, heq⟩ := bind_eq_ok.mp h
      cases heq
      exact ⟨_, createCheckpoint_rows h, fun r hr => (of_decide_eq_true hr).1⟩
  | updatePlan =>
      cases hcall
      obtain ⟨db₁, h, heq⟩ := bind_eq_ok.mp h
      cases heq
      exact updatePlan_rows h

theorem transact_amends {call : StoreCall} {draws : Draws} {now : Nat} {reread : Reread}
    {taskId : String} (hcall : taskOf call = some taskId)
    (h : call.transact db draws now = .ok (reread, db')) : AmendsTask taskId db db' := by
  obtain ⟨p, htasks, hp⟩ := transact_rows hcall h
  refine ⟨p, rewritten draws now call, htasks, hp, fun r => ?_⟩
  cases call <;> exact ⟨rfl, rfl⟩

/-- The transaction of an operation that issues one. -/
theorem runOp_transact {op : WorkspaceOp} {draws : Draws} {now : Nat} {call : StoreCall}
    (hissue : op.issue db scopeKey = .ok (some call))
    (h : SessionState.runOp db scopeKey op draws now = .ok db') :
    ∃ reread, call.transact db draws now = .ok (reread, db') := by
  simp only [SessionState.runOp, hissue] at h
  cases hcall : call.transact db draws now with
  | error e =>
      rw [hcall] at h
      cases h
  | ok result =>
      rw [hcall] at h
      cases h
      exact ⟨_, rfl⟩

theorem runOp_consistent {op : WorkspaceOp} {draws : Draws} {now : Nat} (hc : Consistent db)
    (h : SessionState.runOp db scopeKey op draws now = .ok db') : Consistent db' := by
  cases hissue : op.issue db scopeKey with
  | error e =>
      simp only [SessionState.runOp, hissue] at h
      cases h
  | ok call =>
      cases call with
      | none =>
          simp only [SessionState.runOp, hissue] at h
          cases h
          exact hc
      | some call =>
          obtain ⟨reread, hcall⟩ := runOp_transact hissue h
          exact (transact_spec hc (issue_sound hissue) hcall).1

/-- Work on a task leaves who asked for it. -/
theorem runOp_work {op : WorkspaceOp} {draws : Draws} {now : Nat} (hc : Consistent db)
    (hop : WorkspaceOp.begins op = false)
    (h : SessionState.runOp db scopeKey op draws now = .ok db') {t' : TaskRecord}
    (ht' : db'.getForegroundTask scopeKey = some t') :
    ∃ t, db.getForegroundTask scopeKey = some t ∧ t'.requestedBy = t.requestedBy := by
  have hc' := runOp_consistent hc h
  cases hissue : op.issue db scopeKey with
  | error e =>
      simp only [SessionState.runOp, hissue] at h
      cases h
  | ok call =>
      cases call with
      | none =>
          simp only [SessionState.runOp, hissue] at h
          cases h
          exact ⟨t', ht', rfl⟩
      | some call =>
          obtain ⟨t, hread, htask⟩ := issue_work hop hissue
          obtain ⟨reread, hcall⟩ := runOp_transact hissue h
          exact ⟨t, hread,
            (transact_amends htask hcall).currentTask hc.unique hc'.unique hread ht'⟩

/-- The task a START begins is the foreground task, and there was none. -/
theorem runOp_start {goalText source requestedBy : String} {draws : Draws} {now : Nat}
    (hc : Consistent db)
    (h : SessionState.runOp db scopeKey (.start goalText source requestedBy) draws now = .ok db') :
    db.getForegroundTask scopeKey = none ∧ requiredText goalText 4000 ≠ none ∧
      ∀ t', db'.getForegroundTask scopeKey = some t' →
        t'.requestedBy = boundedText requestedBy 128 := by
  have hu' := (runOp_consistent hc h).unique
  obtain ⟨reread, hcall⟩ := runOp_transact rfl h
  obtain ⟨db₁, hcreate, heq⟩ := bind_eq_ok.mp hcall
  cases heq
  obtain ⟨goal, hgoal, hcreate⟩ := bind_eq_ok.mp hcreate
  obtain ⟨source', -, hcreate⟩ := bind_eq_ok.mp hcreate
  split at hcreate
  · next hwrite =>
      cases hcreate
      obtain ⟨-, rfl⟩ := writeTasks_ok hwrite
      have hnew := (show TaskDb.getForegroundTask _ scopeKey = some _ ↔ _ from currentTask_iff hu').mpr
        ⟨List.mem_append_right _ (List.mem_singleton_self _), rfl, rfl⟩
      refine ⟨?_, ?_, fun t' ht' => ?_⟩
      · -- a task that was there would be the new one, whose id is new
        by_contra hsome
        obtain ⟨t, ht⟩ := Option.ne_none_iff_exists'.mp hsome
        obtain ⟨hmem, hscope, hfore⟩ := (currentTask_iff hc.unique).mp ht
        have hread := (currentTask_iff hu').mpr ⟨List.mem_append_left _ hmem, hscope, hfore⟩
        have hids := hu'.1
        rw [Keyed, List.map_append] at hids
        have hsame : t = _ := Option.some.inj (hread.symm.trans hnew)
        refine List.disjoint_of_nodup_append hids (List.mem_map_of_mem hmem) ?_
        rw [hsame]
        exact List.mem_singleton_self _
      · intro hno
        rw [requireText, hno] at hgoal
        cases hgoal
      · rw [hnew] at ht'
        cases ht'
        rfl
  · cases hcreate

/-- The task a REPLACE_GOAL begins is the foreground task. -/
theorem runOp_replace {goalText source requestedBy : String} {draws : Draws} {now : Nat}
    (hc : Consistent db)
    (h : SessionState.runOp db scopeKey (.replace goalText source requestedBy) draws now = .ok db') :
    requiredText goalText 4000 ≠ none ∧ ∀ t', db'.getForegroundTask scopeKey = some t' →
      t'.requestedBy = boundedText requestedBy 128 := by
  have hu' := (runOp_consistent hc h).unique
  obtain ⟨reread, hcall⟩ := runOp_transact rfl h
  obtain ⟨db₁, hreplace, heq⟩ := bind_eq_ok.mp hcall
  cases heq
  obtain ⟨goal, hgoal, hreplace⟩ := bind_eq_ok.mp hreplace
  obtain ⟨db₂, -, hreplace⟩ := bind_eq_ok.mp hreplace
  obtain ⟨source', -, hwrite⟩ := bind_eq_ok.mp hreplace
  obtain ⟨-, rfl⟩ := writeTasks_ok hwrite
  have hnew := (show TaskDb.getForegroundTask _ scopeKey = some _ ↔ _ from currentTask_iff hu').mpr
    ⟨List.mem_append_right _ (List.mem_singleton_self _), rfl, rfl⟩
  refine ⟨fun hno => ?_, fun t' ht' => ?_⟩
  · rw [requireText, hno] at hgoal
    cases hgoal
  · rw [hnew] at ht'
    cases ht'
    rfl

end Tasks

/-! ## Submissions -/

/-- Owner of the work and requester of the task are the same friend, or
neither is a friend. -/
def Matches (built : PrincipalRegistry) (owner : Option String) (requestedBy : String) : Prop :=
  ∀ sender, built.tierOf sender = .friend →
    (owner = some (PrincipalRegistry.principalId sender) ↔ requestedBy = pyStrip sender)

/-- The commands that control work. -/
def controls : List SessionCommandKind := [.pause, .continue, .cancel, .replaceGoal]

namespace SessionState

variable {s : SessionState} {command : SessionCommand} {scopeKey intentId : String}
variable {dedupeKey : Option String} {kind : WorkIntentKind}

theorem interrupt_eq (s : SessionState) (k : SessionCommandKind) :
    (s.interrupt k).registry = s.registry ∧ (s.interrupt k).goalPrincipalId = s.goalPrincipalId ∧
      (s.interrupt k).db = s.db ∧ (s.interrupt k).queue = s.queue := by
  unfold interrupt
  split <;> exact ⟨rfl, rfl, rfl, rfl⟩

theorem requestCancel_eq (s : SessionState) (k : SessionCommandKind) :
    (s.requestCancel k).registry = s.registry ∧
      (s.requestCancel k).goalPrincipalId = s.goalPrincipalId ∧
      (s.requestCancel k).db = s.db ∧ (s.requestCancel k).queue = s.queue := by
  unfold requestCancel
  split <;> exact ⟨rfl, rfl, rfl, rfl⟩

/-- Queueing a command touches neither the tasks nor who owns the work. -/
theorem enqueueCommand_frame (s : SessionState) (scopeKey : String) (command : SessionCommand)
    (kind : WorkIntentKind) (dedupeKey : Option String) (intentId : String) :
    (s.enqueueCommand scopeKey command kind dedupeKey intentId).2.registry = s.registry ∧
      (s.enqueueCommand scopeKey command kind dedupeKey intentId).2.goalPrincipalId
        = s.goalPrincipalId ∧
      (s.enqueueCommand scopeKey command kind dedupeKey intentId).2.db = s.db := by
  obtain ⟨hr, hg, hd, -⟩ := s.interrupt_eq command.kind
  unfold enqueueCommand
  obtain ⟨hr', hg', hd', -⟩ := requestCancel_eq { s.interrupt command.kind with queue := _ }
    command.kind
  exact ⟨hr'.trans hr, hg'.trans hg, hd'.trans hd⟩

theorem admit_of_allowed (h : (s.admission command).allowed = true) :
    (s.admitCommand command).1 = command := by
  unfold admitCommand
  simp only [h, if_true]

theorem admit_of_denied (h : (s.admission command).allowed = false) :
    (s.admitCommand command).1.kind = .message := by
  unfold admitCommand
  simp only [h]
  rfl

/-- What admission changes: the registry resolves the sender, and a command
that takes over makes it the owner of the work. -/
theorem admitCommand_state (s : SessionState) (command : SessionCommand) :
    (s.admitCommand command).2 = { s with
      registry := (s.registry.resolve command.sender).2
      goalPrincipalId := if (s.admission command).allowed ∧ command.kind.takesOver then
          some (PrincipalRegistry.principalId command.sender) else s.goalPrincipalId } := by
  have hid : (s.admission command).principal.principalId
      = PrincipalRegistry.principalId command.sender := by
    show (PrincipalRegistry.decision ..).principal.principalId = _
    rw [PrincipalRegistry.decision_principal]
    exact (PrincipalRegistry.resolve_record s.registry command.sender).1
  unfold admitCommand
  cases h : (s.admission command).allowed <;> cases command.kind.takesOver <;>
    simp [h, hid]

/-- The kind a submission queues is the command's own, or a message. -/
theorem admitted_kind :
    (s.admitted command).kind = .message ∨
      (s.admission command).allowed = true ∧ s.admitted command = command := by
  unfold admitted
  cases h : (s.admission command).allowed with
  | false =>
      have hm := admit_of_denied h
      refine .inl ?_
      unfold degradeUnwired
      rw [hm]
      exact hm
  | true =>
      rw [admit_of_allowed h]
      unfold degradeUnwired
      split
      · exact .inl rfl
      · exact .inr ⟨rfl, rfl⟩

theorem admitted_of_allowed (h : (s.admission command).allowed = true)
    (hw : command.kind.unwired = false) : s.admitted command = command := by
  unfold admitted
  rw [admit_of_allowed h, degradeUnwired, hw]
  rfl

end SessionState

/-! ### The queue -/

namespace SessionState

variable {q : MemoryWorkIntentQueue}

theorem getByDedupe_supersede (kinds : List WorkIntentKind) (key : String)
    (h : q.getByDedupe key = none) : (q.supersede kinds).2.getByDedupe key = none := by
  unfold MemoryWorkIntentQueue.getByDedupe at h ⊢
  rw [List.find?_eq_none] at h ⊢
  intro r hr
  obtain ⟨r₀, hr₀, rfl⟩ := mem_updateWhere.mp hr
  have hno := h r₀ hr₀
  split
  · exact hno
  · exact hno

theorem enqueue_new {source : String} {payload : JsonObject} {dedupeKey taskId : Option String}
    {generation : Option Int} {intentId : String} {kind : WorkIntentKind}
    (h : dedupeKey.bind q.getByDedupe = none) :
    (q.enqueue kind source payload dedupeKey taskId generation intentId).1.kind = kind ∧
      (q.enqueue kind source payload dedupeKey taskId generation intentId).2.records
        = q.records ++ [(q.enqueue kind source payload dedupeKey taskId generation intentId).1] := by
  have hfind : (dedupeKey.bind fun key => q.records.find? fun r => r.dedupeKey = some key) = none := h
  unfold MemoryWorkIntentQueue.enqueue
  rw [hfind]
  exact ⟨rfl, rfl⟩

end SessionState

namespace SessionState

variable {s : SessionState} {command : SessionCommand} {scopeKey intentId : String}
variable {dedupeKey : Option String} {kind : WorkIntentKind}

theorem enqueueCommand_kind (h : dedupeKey.bind s.queue.getByDedupe = none) :
    (s.enqueueCommand scopeKey command kind dedupeKey intentId).1.kind = kind := by
  obtain ⟨-, -, -, hq⟩ := s.interrupt_eq command.kind
  unfold enqueueCommand
  refine (enqueue_new ?_).1
  rw [hq]
  split
  · exact h
  · cases dedupeKey with
    | none => rfl
    | some key => exact getByDedupe_supersede _ key h

/-- **A submission** returns the intent under its key, or one of the kind it
is admitted with. -/
theorem submit_returns {intent : WorkIntent}
    (h : (s.submit scopeKey command dedupeKey intentId).1 = some intent) :
    dedupeKey.bind s.queue.getByDedupe = some intent ∨
      (s.admitted command).kind.intentKind = some intent.kind := by
  have hqueue : (s.admitCommand command).2.queue = s.queue := by rw [admitCommand_state]
  unfold submit at h
  simp only [hqueue] at h
  cases hkey : dedupeKey.bind s.queue.getByDedupe with
  | some existing =>
      rw [hkey] at h
      exact .inl h
  | none =>
      rw [hkey] at h
      refine .inr ?_
      show (degradeUnwired (s.admitCommand command).1).kind.intentKind = _
      cases hkind : (degradeUnwired (s.admitCommand command).1).kind.intentKind with
      | none =>
          rw [hkind] at h
          cases h
      | some kind =>
          rw [hkind] at h
          cases h
          rw [enqueueCommand_kind (hqueue ▸ hkey)]

/-- A command whose kind is an intent's is queued, or found. -/
theorem submit_some (scopeKey : String) (dedupeKey : Option String) (intentId : String)
    (h : (s.admitted command).kind.intentKind = some kind) :
    ∃ intent, (s.submit scopeKey command dedupeKey intentId).1 = some intent := by
  have hkind : (degradeUnwired (s.admitCommand command).1).kind.intentKind = some kind := h
  unfold submit
  simp only [hkind]
  split
  · next existing _ => exact ⟨existing, rfl⟩
  · exact ⟨_, rfl⟩

/-- The session after a submission: as admission leaves it, but for the queue
and the parts. -/
theorem submit_frame :
    (s.submit scopeKey command dedupeKey intentId).2.db = s.db ∧
      (s.submit scopeKey command dedupeKey intentId).2.registry
        = (s.registry.resolve command.sender).2 ∧
      (s.submit scopeKey command dedupeKey intentId).2.goalPrincipalId
        = (s.admitCommand command).2.goalPrincipalId := by
  have hst := s.admitCommand_state command
  have hdb : (s.admitCommand command).2.db = s.db := by rw [hst]
  have hreg : (s.admitCommand command).2.registry = (s.registry.resolve command.sender).2 := by rw [hst]
  unfold submit
  simp only
  split
  · exact ⟨hdb, hreg, rfl⟩
  · split
    · exact ⟨hdb, hreg, rfl⟩
    · obtain ⟨hr, hg, hd⟩ := enqueueCommand_frame (s.admitCommand command).2 scopeKey
        (degradeUnwired (s.admitCommand command).1) _ dedupeKey intentId
      exact ⟨hd.trans hdb, hr.trans hreg, hg⟩

end SessionState

/-! ## What is owed -/

variable (built : PrincipalRegistry) (scopeKey : String)

/-- What a submission owes to those who may and may not control the work. -/
structure Fair (s : SessionState) (command : SessionCommand) (dedupeKey : Option String)
    (intentId : String) : Prop where
  /-- control that a friend gets is over its own work -/
  own : built.tierOf command.sender = .friend → ∀ intent k,
    (s.submit scopeKey command dedupeKey intentId).1 = some intent → k ∈ controls →
    k.intentKind = some intent.kind → ∀ t, s.currentTask scopeKey = some t →
      t.requestedBy = pyStrip command.sender
  /-- control over its own work is not denied to a friend -/
  granted : built.tierOf command.sender = .friend → command.kind ∈ controls →
    ∀ t, s.currentTask scopeKey = some t → t.requestedBy = pyStrip command.sender →
      ∃ intent, (s.submit scopeKey command dedupeKey intentId).1 = some intent ∧
        command.kind.intentKind = some intent.kind
  /-- a stranger gets neither work nor control -/
  stranger : built.tierOf command.sender = .stranger → ∀ intent k,
    (s.submit scopeKey command dedupeKey intentId).1 = some intent →
    k ∈ controls ∨ k = .start ∨ k = .quit → k.intentKind ≠ some intent.kind
  /-- a command that is denied interrupts nothing and supersedes nothing -/
  quiet : (s.admission command).allowed = false →
    (s.submit scopeKey command dedupeKey intentId).2.parts = s.parts ∧
      s.queue.records <+: (s.submit scopeKey command dedupeKey intentId).2.queue.records

/-- A step after which owner and requester still match. -/
def Careful (s : SessionState) : SessionInput → Prop
  | .submit command dedupeKey _ =>
      ((s.admission command).allowed = true → command.kind.takesOver →
        ∀ t, s.currentTask scopeKey = some t →
          Matches built (some (PrincipalRegistry.principalId command.sender)) t.requestedBy) ∧
      (built.tierOf command.sender ≠ .owner →
        ∀ existing, dedupeKey.bind s.queue.getByDedupe = some existing →
          (s.admitted command).kind.intentKind = some existing.kind)
  | .execute _ _ => ∀ intent command, s.active = some (intent, false) →
      SessionState.commandFromIntent intent = some command → command.kind.takesOver →
      (command.kind = .start → s.currentTask scopeKey = none) →
      requiredText command.text 4000 ≠ none →
      Matches built s.goalPrincipalId (boundedText command.sender 128)
  | .restart _ => ∀ t, s.currentTask scopeKey = some t → Matches built none t.requestedBy
  | _ => True

/-- The trust assignment is the one that was built, and the owner of the work
matches the foreground task. -/
structure Sound (s : SessionState) : Prop where
  trust : PrincipalRegistry.SameTrust built s.registry
  tasks : Consistent s.db
  owner : ∀ t, s.currentTask scopeKey = some t → Matches built s.goalPrincipalId t.requestedBy

section

variable {built scopeKey} {s : SessionState} {command : SessionCommand}
variable {dedupeKey : Option String} {intentId : String}

theorem Sound.allowed_iff (h : Sound built scopeKey s) (henf : built.enforcing = true) :
    (s.admission command).allowed = true ↔
      matrix (built.tierOf command.sender) command.kind.admissionCapability = .allowed ∨
        matrix (built.tierOf command.sender) command.kind.admissionCapability = .ownWorkOnly ∧
          s.goalPrincipalId = some (PrincipalRegistry.principalId command.sender) := by
  rw [← h.trust.tierOf]
  exact PrincipalRegistry.evaluate_allowed (h.trust.enforcing.trans henf)

/-- The kind of what is returned, under the condition on the key. -/
theorem returned_kind (hc : Careful built scopeKey s (.submit command dedupeKey intentId))
    (htier : built.tierOf command.sender ≠ .owner) {intent : WorkIntent}
    (h : (s.submit scopeKey command dedupeKey intentId).1 = some intent) :
    (s.admitted command).kind.intentKind = some intent.kind :=
  (SessionState.submit_returns h).elim (hc.2 htier intent) id

theorem intentKind_injective {k k' : SessionCommandKind} {kind : WorkIntentKind}
    (h : k.intentKind = some kind) (h' : k'.intentKind = some kind) : k = k' := by
  cases k <;> cases h <;> cases k' <;> first | rfl | cases h'

/-- A command other than a message that is queued as it is was admitted. -/
theorem allowed_of_returned (hc : Careful built scopeKey s (.submit command dedupeKey intentId))
    (htier : built.tierOf command.sender ≠ .owner) {intent : WorkIntent} {k : SessionCommandKind}
    (h : (s.submit scopeKey command dedupeKey intentId).1 = some intent)
    (hk : k.intentKind = some intent.kind) (hm : k ≠ .message) :
    (s.admission command).allowed = true ∧ command.kind = k := by
  have hkind := intentKind_injective (returned_kind hc htier h) hk
  rcases (s.admitted_kind : (s.admitted command).kind = .message ∨ _) with hmessage | ⟨hallowed, hsame⟩
  · exact absurd (hkind.symm.trans hmessage) hm
  · rw [hsame] at hkind
    exact ⟨hallowed, hkind⟩

theorem controls_capability {k : SessionCommandKind} (h : k ∈ controls) :
    k.admissionCapability = .controlWork ∧ k ≠ .message ∧ k.unwired = false ∧
      ∃ kind, k.intentKind = some kind := by
  simp only [controls, List.mem_cons, List.not_mem_nil, or_false] at h
  rcases h with rfl | rfl | rfl | rfl <;> exact ⟨rfl, nofun, rfl, _, rfl⟩

/-- A denied command becomes a message, and a message supersedes nothing. -/
theorem submit_denied (h : (s.admission command).allowed = false) :
    (s.submit scopeKey command dedupeKey intentId).2.parts = s.parts ∧
      s.queue.records <+: (s.submit scopeKey command dedupeKey intentId).2.queue.records := by
  have hst := s.admitCommand_state command
  have hmessage := SessionState.admit_of_denied h
  have hdegrade : SessionState.degradeUnwired (s.admitCommand command).1 = (s.admitCommand command).1 := by
    unfold SessionState.degradeUnwired
    rw [hmessage]
    rfl
  have hparts : (s.admitCommand command).2.parts = s.parts := by rw [hst]
  have hqueue : (s.admitCommand command).2.queue = s.queue := by rw [hst]
  unfold SessionState.submit
  simp only [hdegrade, hmessage, SessionCommandKind.intentKind]
  cases hkey : dedupeKey.bind (s.admitCommand command).2.queue.getByDedupe with
  | some existing =>
      have hrecords : s.queue.records <+: (s.admitCommand command).2.queue.records :=
        hqueue ▸ List.prefix_rfl
      exact ⟨hparts, hrecords⟩
  | none =>
      simp only [SessionState.enqueueCommand, SessionState.interrupt, SessionState.requestCancel,
        hmessage, SessionCommandKind.alwaysInterrupt]
      refine ⟨hparts, ?_⟩
      show s.queue.records <+: ((s.admitCommand command).2.queue.enqueue ..).2.records
      rw [(SessionState.enqueue_new hkey).2, hqueue]
      exact List.prefix_append _ _

theorem Sound.own (h : Sound built scopeKey s) (henf : built.enforcing = true)
    (hc : Careful built scopeKey s (.submit command dedupeKey intentId))
    (htier : built.tierOf command.sender = .friend) {intent : WorkIntent} {k : SessionCommandKind}
    (hret : (s.submit scopeKey command dedupeKey intentId).1 = some intent) (hk : k ∈ controls)
    (hkind : k.intentKind = some intent.kind) {t : TaskRecord}
    (ht : s.currentTask scopeKey = some t) : t.requestedBy = pyStrip command.sender := by
  obtain ⟨hcap, hm, -, -⟩ := controls_capability hk
  have hne : built.tierOf command.sender ≠ .owner := by rw [htier]; nofun
  obtain ⟨hallowed, rfl⟩ := allowed_of_returned hc hne hret hkind hm
  rw [h.allowed_iff henf, htier, hcap] at hallowed
  rcases hallowed with hno | ⟨-, howner⟩
  · cases hno
  · exact (h.owner t ht command.sender htier).mp howner

theorem Sound.granted (h : Sound built scopeKey s) (henf : built.enforcing = true)
    (hc : Careful built scopeKey s (.submit command dedupeKey intentId))
    (htier : built.tierOf command.sender = .friend) (hk : command.kind ∈ controls) {t : TaskRecord}
    (ht : s.currentTask scopeKey = some t) (hreq : t.requestedBy = pyStrip command.sender) :
    ∃ intent, (s.submit scopeKey command dedupeKey intentId).1 = some intent ∧
      command.kind.intentKind = some intent.kind := by
  obtain ⟨hcap, -, hwired, kind, hkind⟩ := controls_capability hk
  have howner := (h.owner t ht command.sender htier).mpr hreq
  have hallowed : (s.admission command).allowed = true := by
    rw [h.allowed_iff henf, htier, hcap]
    exact .inr ⟨rfl, howner⟩
  have hadmitted := SessionState.admitted_of_allowed hallowed hwired
  have hkind' : (s.admitted command).kind.intentKind = some kind := by rw [hadmitted]; exact hkind
  obtain ⟨intent, hret⟩ := SessionState.submit_some scopeKey dedupeKey intentId hkind'
  refine ⟨intent, hret, ?_⟩
  have hne : built.tierOf command.sender ≠ .owner := by rw [htier]; nofun
  have hreturned := returned_kind hc hne hret
  rwa [hadmitted] at hreturned

theorem Sound.stranger (h : Sound built scopeKey s) (henf : built.enforcing = true)
    (hc : Careful built scopeKey s (.submit command dedupeKey intentId))
    (htier : built.tierOf command.sender = .stranger) {intent : WorkIntent}
    {k : SessionCommandKind}
    (hret : (s.submit scopeKey command dedupeKey intentId).1 = some intent)
    (hk : k ∈ controls ∨ k = .start ∨ k = .quit) : k.intentKind ≠ some intent.kind := by
  intro hkind
  have hcap : matrix .stranger k.admissionCapability = .denied ∧ k ≠ .message := by
    rcases hk with hk | rfl | rfl
    · obtain ⟨hcap, hm, -, -⟩ := controls_capability hk
      exact ⟨by rw [hcap]; rfl, hm⟩
    · exact ⟨rfl, nofun⟩
    · exact ⟨rfl, nofun⟩
  have hne : built.tierOf command.sender ≠ .owner := by rw [htier]; nofun
  obtain ⟨hallowed, hsame⟩ := allowed_of_returned hc hne hret hkind hcap.2
  rw [h.allowed_iff henf, htier, hsame, hcap.1] at hallowed
  rcases hallowed with hno | ⟨hno, -⟩
  · cases hno
  · cases hno

/-- **The matrix gives what it says**, while owner and requester match. -/
theorem Sound.fair (h : Sound built scopeKey s) (henf : built.enforcing = true)
    (hc : Careful built scopeKey s (.submit command dedupeKey intentId)) :
    Fair built scopeKey s command dedupeKey intentId where
  own htier _ _ hret hk hkind _ ht := h.own henf hc htier hret hk hkind ht
  granted htier hk _ ht hreq := h.granted henf hc htier hk ht hreq
  stranger htier _ _ hret hk := h.stranger henf hc htier hret hk
  quiet := submit_denied

/-! ## Every step keeps owner and requester matched -/

theorem Sound.submit (h : Sound built scopeKey s)
    (hc : Careful built scopeKey s (.submit command dedupeKey intentId)) :
    Sound built scopeKey (s.submit scopeKey command dedupeKey intentId).2 := by
  obtain ⟨hdb, hreg, howner⟩ :
      (s.submit scopeKey command dedupeKey intentId).2.db = s.db ∧ _ ∧ _ := SessionState.submit_frame
  refine ⟨?_, by rw [hdb]; exact h.tasks, fun t ht => ?_⟩
  · rw [hreg]
    exact h.trust.trans (PrincipalRegistry.resolve_sameTrust _ _)
  · have ht' : s.currentTask scopeKey = some t := by
      unfold SessionState.currentTask at ht ⊢
      rwa [hdb] at ht
    rw [howner, SessionState.admitCommand_state]
    dsimp only
    split
    · next htakes => exact hc.1 htakes.1 htakes.2 t ht'
    · exact h.owner t ht'

/-- A step that leaves the trust and the owner of the work, and after which a
foreground task has the requester of the one before. -/
theorem Sound.frame (h : Sound built scopeKey s) {s' : SessionState}
    (hreg : s'.registry = s.registry) (howner : s'.goalPrincipalId = s.goalPrincipalId)
    (hc : Consistent s'.db) (htask : ∀ t', s'.currentTask scopeKey = some t' →
      ∃ t, s.currentTask scopeKey = some t ∧ t'.requestedBy = t.requestedBy) :
    Sound built scopeKey s' := by
  refine ⟨by rw [hreg]; exact h.trust, hc, fun t' ht' => ?_⟩
  obtain ⟨t, ht, hreq⟩ := htask t' ht'
  rw [howner, hreq]
  exact h.owner t ht

/-- A step that leaves the trust, the owner of the work and the tasks. -/
theorem Sound.same (h : Sound built scopeKey s) {s' : SessionState}
    (hreg : s'.registry = s.registry) (howner : s'.goalPrincipalId = s.goalPrincipalId)
    (hdb : s'.db = s.db) : Sound built scopeKey s' :=
  h.frame hreg howner (hdb ▸ h.tasks) fun t' ht' =>
    ⟨t', by unfold SessionState.currentTask at ht' ⊢; rwa [hdb] at ht', rfl⟩

theorem ensureParts_eq (s : SessionState) (renewed : Bool) :
    (s.ensureParts renewed).registry = s.registry ∧
      (s.ensureParts renewed).goalPrincipalId = s.goalPrincipalId ∧
      (s.ensureParts renewed).db = s.db := by
  unfold SessionState.ensureParts
  split <;> exact ⟨rfl, rfl, rfl⟩

theorem settle_eq (s : SessionState) (intent : WorkIntent) (state : WorkIntentState) :
    (s.settle intent state).registry = s.registry ∧
      (s.settle intent state).goalPrincipalId = s.goalPrincipalId ∧
      (s.settle intent state).db = s.db := by
  unfold SessionState.settle
  split <;> exact ⟨rfl, rfl, rfl⟩

theorem prepareParts_eq (s : SessionState) (scopeKey : String) (kind : SessionCommandKind) :
    (s.prepareParts scopeKey kind).registry = s.registry ∧
      (s.prepareParts scopeKey kind).goalPrincipalId = s.goalPrincipalId ∧
      (s.prepareParts scopeKey kind).db = s.db := by
  unfold SessionState.prepareParts
  split
  · exact ensureParts_eq s true
  · exact ensureParts_eq s true
  · exact ensureParts_eq s false
  · split
    · exact ensureParts_eq s false
    · exact ⟨rfl, rfl, rfl⟩
  · exact ⟨rfl, rfl, rfl⟩

/-- The operations of the commands: those that begin a task are asked for by
the sender. -/
theorem commandOp_cases {op : WorkspaceOp} (h : SessionState.commandOp command = some op) :
    WorkspaceOp.begins op = false ∨
      (command.kind = .start ∧ ∃ source, op = .start command.text source command.sender) ∨
      (command.kind = .replaceGoal ∧
        ∃ source, op = .replace command.text source command.sender) := by
  unfold SessionState.commandOp at h
  split at h
  · next hk =>
      cases h
      exact .inr (.inl ⟨hk, _, rfl⟩)
  · next hk =>
      cases h
      exact .inr (.inr ⟨hk, _, rfl⟩)
  · cases h
    exact .inl rfl
  · cases h
    exact .inl rfl
  · cases h
    exact .inl rfl
  · cases h

/-- A command that is applied, if the owner of the work matches the task it
begins. -/
theorem Sound.applyCommand (h : Sound built scopeKey s) (draws : Draws) (now : Nat)
    (hc : command.kind.takesOver → (command.kind = .start → s.currentTask scopeKey = none) →
      requiredText command.text 4000 ≠ none →
      Matches built s.goalPrincipalId (boundedText command.sender 128)) :
    Sound built scopeKey (s.applyCommand scopeKey command draws now).2 := by
  obtain ⟨hreg, howner, hdb⟩ := prepareParts_eq s scopeKey command.kind
  have hprep := h.same hreg howner hdb
  unfold SessionState.applyCommand
  dsimp only
  split
  · exact hprep
  · next op hop =>
      cases hrun : SessionState.runOp (s.prepareParts scopeKey command.kind).db scopeKey op draws
          now with
      | error e => exact hprep
      | ok db =>
          rw [hdb] at hrun
          have hcons := runOp_consistent h.tasks hrun
          rcases commandOp_cases hop with hwork | ⟨hk, source, rfl⟩ | ⟨hk, source, rfl⟩
          · exact h.frame hreg howner hcons fun t' ht' => runOp_work h.tasks hwork hrun ht'
          · obtain ⟨hnone, htext, hnew⟩ := runOp_start h.tasks hrun
            refine ⟨by rw [hreg]; exact h.trust, hcons, fun t' ht' => ?_⟩
            rw [hnew t' ht', howner]
            exact hc (by rw [hk]; rfl) (fun _ => hnone) htext
          · obtain ⟨htext, hnew⟩ := runOp_replace h.tasks hrun
            refine ⟨by rw [hreg]; exact h.trust, hcons, fun t' ht' => ?_⟩
            rw [hnew t' ht', howner]
            exact hc (by rw [hk]; rfl) (fun hno => by rw [hk] at hno; cases hno) htext

theorem leaseNext_kind {q : MemoryWorkIntentQueue} {kind : WorkIntentKind} {intent : WorkIntent}
    (h : (q.leaseNext (some kind)).1 = some intent) : intent.kind = kind := by
  unfold MemoryWorkIntentQueue.leaseNext at h
  split at h
  · cases h
  · next selected hsel =>
      cases h
      have hmem := List.argmin_mem hsel
      have hrow := (List.mem_filter.mp hmem).2
      exact (of_decide_eq_true (of_decide_eq_true hrow).2)

theorem step_sound (h : Sound built scopeKey s) {input : SessionInput}
    (hc : Careful built scopeKey s input) : Sound built scopeKey (step built scopeKey s input).2 := by
  cases input with
  | submit command dedupeKey intentId => exact h.submit hc
  | enqueue =>
      simp only [step]
      split
      · exact h
      · exact h.same rfl rfl rfl
  | lease =>
      simp only [step, SessionState.lease]
      split
      · exact h
      · exact h.same rfl rfl rfl
  | execute draws now =>
      simp only [step, SessionState.execute]
      split
      · next intent hactive =>
          split
          · exact h.same rfl rfl rfl
          · next command hcommand =>
              have happ := h.applyCommand draws now (hc intent command hactive hcommand)
              generalize s.applyCommand scopeKey command draws now = outcome at happ ⊢
              rcases outcome with ⟨_ | _, s₁⟩
              · obtain ⟨hr, ho, hd⟩ := settle_eq s₁ intent .failed
                exact happ.same hr ho hd
              · exact happ.same rfl rfl rfl
      · exact h
  | steer draws now =>
      simp only [step, SessionState.steer]
      rcases hlease : s.queue.leaseNext (some .message) with ⟨_ | intent, queue⟩
      · exact h
      · have hkind : intent.kind = .message := leaseNext_kind (congrArg Prod.fst hlease)
        have hq : Sound built scopeKey { s with queue } := h.same rfl rfl rfl
        dsimp only
        cases hcommand : SessionState.commandFromIntent intent with
        | none =>
            dsimp only
            split
            · exact hq.same rfl rfl rfl
            · exact hq
        | some command =>
            have happ : Sound built scopeKey
                ({ s with queue }.applyCommand scopeKey command draws now).2 := by
              refine hq.applyCommand draws now fun htakes => ?_
              rw [SessionState.commandFromIntent, hkind] at hcommand
              cases hcommand
              cases htakes
            dsimp only
            split
            · exact happ.same rfl rfl rfl
            · exact happ
  | work op draws now =>
      simp only [step]
      split
      · exact h
      · next hop =>
          split
          · next db hrun =>
              exact h.frame rfl rfl (runOp_consistent h.tasks hrun) fun t' ht' =>
                runOp_work h.tasks (Bool.eq_false_iff.mpr hop) hrun ht'
          · exact h
  | finish state =>
      simp only [step, SessionState.finish]
      split
      · obtain ⟨hr, ho, hd⟩ := settle_eq s _ state
        exact h.same hr ho hd
      · exact h
  | ensureParts =>
      obtain ⟨hr, ho, hd⟩ := ensureParts_eq s false
      exact h.same hr ho hd
  | supersede kinds => exact h.same rfl rfl rfl
  | restart survives =>
      refine ⟨?_, h.tasks, hc⟩
      simp only [step, SessionState.restart]
      split
      · exact h.trust
      · exact .refl built

theorem sound_init (built : PrincipalRegistry) (scopeKey : String) :
    Sound built scopeKey (.init built) :=
  ⟨.refl built, ⟨⟨List.nodup_nil, List.nodup_nil⟩, nofun⟩, nofun⟩

end

/-- **A friend controls only work it started**, and all of it, in each run in
which owner and requester keep matching. -/
theorem friend_controls_own_work (built : PrincipalRegistry) (scopeKey : String)
    (henf : built.enforcing = true) (log : List (SessionInput × Option WorkIntent))
    (s : SessionState)
    (hrun : Run (step built scopeKey) (fun _ s input => Careful built scopeKey s input)
      (.init built) log s)
    (command : SessionCommand) (dedupeKey : Option String) (intentId : String)
    (hc : Careful built scopeKey s (.submit command dedupeKey intentId)) :
    Fair built scopeKey s command dedupeKey intentId :=
  (hrun.invariant (P := fun _ s => Sound built scopeKey s) (sound_init built scopeKey)
    fun _ _ _ _ hok h => step_sound h hok).fair henf hc

/-! ### Runs of a few commands -/

/-- One owner and two friends. -/
def household : PrincipalRegistry := ⟨["qWait"], ["Ann", "Bob"], [], .stranger⟩

def asks (sender : String) (kind : SessionCommandKind) : SessionCommand := ⟨kind, "dig", "", sender⟩

def drawn (id : String) : Draws := ⟨id, fun _ => ""⟩

/-- A friend asks for work, which is begun. -/
def beginWork : List SessionInput :=
  [.submit (asks "Ann" .start) none "intent-1", .lease, .execute (drawn "task-1") 1,
    .finish .completed]

def after (inputs : List SessionInput) : SessionState :=
  (exec (step household "scope") (.init household) inputs).2

theorem matches_self (built : PrincipalRegistry) (name : String) :
    Matches built (some name) name := by
  intro sender htier
  have hstrip : pyStrip sender ≠ "" := by
    intro hempty
    rw [PrincipalRegistry.tierOf, if_pos hempty] at htier
    cases htier
  rw [PrincipalRegistry.principalId, if_neg hstrip, Option.some_inj]

/-- A careful step prolongs a careful run. -/
theorem run_after {inputs : List SessionInput} (input : SessionInput)
    (h : ∃ log, Run (step household "scope") (fun _ s i => Careful household "scope" s i)
      (.init household) log (after inputs))
    (hc : Careful household "scope" (after inputs) input) :
    ∃ log, Run (step household "scope") (fun _ s i => Careful household "scope" s i)
      (.init household) log (after (inputs ++ [input])) := by
  obtain ⟨log, hrun⟩ := h
  have hnext := hrun.next input hc
  have hafter : after (inputs ++ [input]) = (step household "scope" (after inputs) input).2 := by
    simp only [after, exec_append, exec]
  exact ⟨_, hafter ▸ hnext⟩

/-- The intent of a friend's START is executed for that friend. -/
theorem careful_execute :
    Careful household "scope" (after [.submit (asks "Ann" .start) none "intent-1", .lease])
      (.execute (drawn "task-1") 1) := by
  intro intent command hactive hcommand _ _ _
  have hsender : ((after [.submit (asks "Ann" .start) none "intent-1", .lease]).active.bind
      fun active => (SessionState.commandFromIntent active.1).map fun command =>
        boundedText command.sender 128) = some "Ann" := by decide +kernel
  rw [hactive, Option.bind_some, hcommand] at hsender
  have howner : (after [.submit (asks "Ann" .start) none "intent-1", .lease]).goalPrincipalId
      = some "Ann" := by decide +kernel
  have hbounded : boundedText command.sender 128 = "Ann" := Option.some.inj hsender
  rw [howner, hbounded]
  exact matches_self household "Ann"

theorem run_beginWork :
    ∃ log, Run (step household "scope") (fun _ s i => Careful household "scope" s i)
      (.init household) log (after beginWork) := by
  have hstart : ∃ log, Run (step household "scope")
      (fun _ s i => Careful household "scope" s i) (.init household) log (after []) :=
    ⟨[], Run.start⟩
  have hsubmit := run_after (.submit (asks "Ann" .start) none "intent-1") hstart
    ⟨fun _ _ _ ht => (nomatch ht), fun _ _ hex => (nomatch hex)⟩
  have hlease := run_after .lease hsubmit trivial
  have hexecute := run_after (.execute (drawn "task-1") 1) hlease careful_execute
  exact run_after (.finish .completed) hexecute trivial

theorem friend_controls_own_work_cancel :
    Fair household "scope" (after beginWork) (asks "Ann" .cancel) none "intent-2" := by
  obtain ⟨log, hrun⟩ := run_beginWork
  have hcancel : Careful household "scope" (after beginWork)
      (.submit (asks "Ann" .cancel) none "intent-2") :=
    ⟨fun _ htakes => (nomatch htakes), fun _ _ hex => (nomatch hex)⟩
  exact friend_controls_own_work household "scope" rfl log (after beginWork) hrun
    (asks "Ann" .cancel) none "intent-2" hcancel

theorem exists_run (inputs : List SessionInput) :
    ∃ log, Run (step household "scope") (fun _ _ _ => True) (.init household) log (after inputs) :=
  ⟨_, Run.of_inputs inputs fun _ _ _ _ => trivial⟩

/-- **A friend controls work it did not start**: after a START of its own that
is refused; a friend loses its work in a restart; and a stranger gets the
control that an owner's key returns. -/
theorem friend_controls_other_work :
    (∃ s, (∃ log, Run (step household "scope") (fun _ _ _ => True) (.init household) log s) ∧
      ¬ Fair household "scope" s (asks "Bob" .cancel) none "intent-3") ∧
    (∃ s, (∃ log, Run (step household "scope") (fun _ _ _ => True) (.init household) log s) ∧
      ¬ Fair household "scope" s (asks "Ann" .cancel) none "intent-2") ∧
    ∃ s, (∃ log, Run (step household "scope") (fun _ _ _ => True) (.init household) log s) ∧
      ¬ Fair household "scope" s (asks "Eve" .cancel) (some "key") "intent-2" := by
  refine ⟨⟨_, exists_run (beginWork ++ [.submit (asks "Bob" .start) none "intent-2"]), ?_⟩,
    ⟨_, exists_run (beginWork ++ [.restart ⟨true, true⟩]), ?_⟩,
    ⟨_, exists_run [.submit (asks "qWait" .cancel) (some "key") "intent-1"], ?_⟩⟩
  · intro h
    have htask : ((after (beginWork ++ [.submit (asks "Bob" .start) none "intent-2"])).currentTask
        "scope").map (·.requestedBy) = some "Ann" := by decide +kernel
    have hret : ((after (beginWork ++ [.submit (asks "Bob" .start) none "intent-2"])).submit "scope"
        (asks "Bob" .cancel) none "intent-3").1.map (·.kind) = some .cancel := by decide +kernel
    obtain ⟨t, ht, hreq⟩ := Option.map_eq_some_iff.mp htask
    obtain ⟨intent, hintent, hkind⟩ := Option.map_eq_some_iff.mp hret
    have hown := h.own (by decide +kernel) intent .cancel hintent (by decide) (hkind ▸ rfl) t ht
    rw [hreq] at hown
    exact absurd hown (by decide +kernel)
  · intro h
    have htask : ((after (beginWork ++ [.restart ⟨true, true⟩])).currentTask
        "scope").map (·.requestedBy) = some "Ann" := by decide +kernel
    have hret : ((after (beginWork ++ [.restart ⟨true, true⟩])).submit "scope"
        (asks "Ann" .cancel) none "intent-2").1.map (·.kind) = some .message := by decide +kernel
    obtain ⟨t, ht, hreq⟩ := Option.map_eq_some_iff.mp htask
    obtain ⟨intent, hintent, hkind⟩ := h.granted (by decide +kernel) (by decide) t ht
      (hreq.trans (by decide +kernel))
    rw [hintent] at hret
    have hmessage : intent.kind = .message := Option.some.inj hret
    rw [hmessage] at hkind
    cases hkind
  · intro h
    have hret : ((after [.submit (asks "qWait" .cancel) (some "key") "intent-1"]).submit "scope"
        (asks "Eve" .cancel) (some "key") "intent-2").1.map (·.kind) = some .cancel := by
      decide +kernel
    obtain ⟨intent, hintent, hkind⟩ := Option.map_eq_some_iff.mp hret
    exact h.stranger (by decide +kernel) intent .cancel hintent (.inl (by decide)) (hkind ▸ rfl)

end AgentSession

end MineBot
