import MineBot.History
import MineBot.Results
import MineBot.TaskStore

/-!
# Workspaces over one database

`TaskWorkspace` objects that share a database. An operation reads the
current task, then runs one transaction of the store, then reads what
the transaction wrote; between any two of these the other operations may
run. So a read may be stale when its transaction runs: `transition_task`
and `create_checkpoint` then refuse by the revision, `update_plan` and
`replace_foreground_task` do not look at what was read.

Whatever a transaction does, the tables it leaves are *later* than the ones it
found: no record goes, a task row that changes gets a higher revision,
and a finished task keeps its status.
-/

namespace MineBot

open Table TaskDb

/-! ## Operations -/

/-- The operations of `TaskWorkspace` that write. -/
inductive WorkspaceOp where
  | start (goalText source requestedBy : String)
  | replace (goalText source requestedBy : String)
  | pause
  | resume
  | cancel
  | complete (authority : CompletionAuthority)
  | checkpoint (expectedTaskRevision : Int) (disposition : CheckpointDisposition)
      (summary nextStep : String) (evidence waitFor : List String)
      (bodyFingerprint : Option (Option JsonObject))
      (continuation : Option (Option ContinuationTerms))
  | updatePlan (expectedRevision : Int) (summary : String) (steps : List (Option PlanStepInput))

/-- A call of the store. -/
inductive StoreCall where
  | createTask (scopeKey goalText source requestedBy : String)
  | replaceForegroundTask (scopeKey goalText source requestedBy : String)
  | transitionTask (taskId : String) (expectedRevision : Int) (status : TaskStatus)
      (authority : Option CompletionAuthority)
  | createCheckpoint (taskId : String) (expectedTaskRevision : Int)
      (disposition : CheckpointDisposition) (summary nextStep : String)
      (evidence waitFor : List String) (bodyFingerprint : Option (Option JsonObject))
      (continuation : Option (Option ContinuationTerms))
  | updatePlan (taskId : String) (expectedRevision : Int) (summary : String)
      (steps : List (Option PlanStepInput))

/-- `current_task`, and the call of the store that follows; `none` is an
operation that returns `None` without one. -/
def WorkspaceOp.issue (db : TaskDb) (scopeKey : String) :
    WorkspaceOp → Except TaskError (Option StoreCall)
  | .start goalText source requestedBy =>
      .ok (some (.createTask scopeKey goalText source requestedBy))
  | .replace goalText source requestedBy =>
      .ok (some (.replaceForegroundTask scopeKey goalText source requestedBy))
  | .pause => .ok ((db.getForegroundTask scopeKey).map fun task =>
      .transitionTask task.taskId task.revision .paused none)
  | .resume => .ok ((db.getForegroundTask scopeKey).map fun task =>
      .transitionTask task.taskId task.revision .running none)
  | .cancel => .ok ((db.getForegroundTask scopeKey).map fun task =>
      .transitionTask task.taskId task.revision .cancelled (some .human))
  | .complete authority => .ok ((db.getForegroundTask scopeKey).map fun task =>
      .transitionTask task.taskId task.revision .completed (some authority))
  | .checkpoint expectedTaskRevision disposition summary nextStep evidence waitFor bodyFingerprint
      continuation =>
      match db.getForegroundTask scopeKey with
      | none => .error .noActiveTask
      | some task =>
          if (disposition = .continue) ≠ (continuation ≠ none) then .error .continuationMismatch
          else if disposition = .complete
              ∧ !(evidence.any fun item => item.toList.any fun c => !isPySpace c) then
            .error .completionEvidence
          else if task.revision ≠ expectedTaskRevision then
            .error (.taskRevisionRead task.taskId expectedTaskRevision task.revision)
          else .ok (some (.createCheckpoint task.taskId expectedTaskRevision disposition summary
            nextStep evidence waitFor bodyFingerprint continuation))
  | .updatePlan expectedRevision summary steps =>
      match db.getForegroundTask scopeKey with
      | none => .error .noActiveTask
      | some task => .ok (some (.updatePlan task.taskId expectedRevision summary steps))

/-- What a method of the store reads after its transaction. -/
inductive Reread where
  | task (taskId : String)
  | plan (taskId : String)
  | checkpoint (taskId checkpointId : String)

inductive TaskAnswer where
  | task (task : TaskRecord)
  | plan (plan : TaskPlanRow) (steps : List PlanStepRow)
  | checkpoint (task : TaskRecord) (checkpoint : TaskCheckpointRow)
deriving DecidableEq

/-- The read after the transaction, with its assertion. -/
def Reread.read (db : TaskDb) : Reread → Except TaskError TaskAnswer
  | .task taskId => match db.getTask taskId with
      | some record => .ok (.task record)
      | none => .error .recordMissing
  | .plan taskId => match db.getPlan taskId with
      | some record => .ok (.plan record.1 record.2)
      | none => .error .recordMissing
  | .checkpoint taskId checkpointId =>
      match db.getTask taskId, db.getCheckpoint checkpointId with
      | some record, some written => .ok (.checkpoint record written)
      | _, _ => .error .recordMissing

/-- What `uuid4` draws for a call: the id of its record, and those of its
plan steps. -/
structure Draws where
  id : String
  stepId : Nat → String

/-- The transaction of a call. -/
def StoreCall.transact (db : TaskDb) (draws : Draws) (now : Nat) :
    StoreCall → Except TaskError (Reread × TaskDb)
  | .createTask scopeKey goalText source requestedBy => do
      return (.task draws.id,
        ← db.createTask scopeKey goalText source requestedBy .running draws.id now)
  | .replaceForegroundTask scopeKey goalText source requestedBy => do
      return (.task draws.id,
        ← db.replaceForegroundTask scopeKey goalText source requestedBy draws.id now)
  | .transitionTask taskId expectedRevision status authority => do
      return (.task taskId, ← db.transitionTask taskId expectedRevision status authority now)
  | .createCheckpoint taskId expectedTaskRevision disposition summary nextStep evidence waitFor
      bodyFingerprint continuation => do
      return (.checkpoint taskId draws.id, ← db.createCheckpoint taskId expectedTaskRevision
        disposition summary nextStep evidence waitFor bodyFingerprint continuation draws.id now)
  | .updatePlan taskId expectedRevision summary steps => do
      return (.plan taskId,
        ← db.updatePlan taskId expectedRevision summary steps draws.id draws.stepId now)

/-! ## Interleaved operations -/

/-- Where an operation stands between its critical sections. -/
inductive CallPhase where
  | issued (call : StoreCall)
  | committed (reread : Reread)

structure WorkspaceState where
  db : TaskDb
  /-- the operations under way, by caller -/
  calls : Dict Nat CallPhase

def WorkspaceState.init : WorkspaceState := ⟨⟨[], [], [], []⟩, []⟩

inductive WorkspaceInput where
  | call (caller : Nat) (scopeKey : String) (op : WorkspaceOp)
  | transact (caller : Nat) (draws : Draws) (now : Nat)
  | answer (caller : Nat)

inductive WorkspaceOutput where
  /-- the operation goes on -/
  | underWay
  /-- it returns `None` -/
  | nothing
  | returned (answer : TaskAnswer)
  | raised (error : TaskError)
  /-- the caller has no such step to take -/
  | idle
deriving DecidableEq

/-- One critical section of one operation. -/
def workspaceStep (s : WorkspaceState) : WorkspaceInput → WorkspaceOutput × WorkspaceState
  | .call caller scopeKey op => match s.calls.get? caller with
      | some _ => (.idle, s)
      | none => match op.issue s.db scopeKey with
          | .error error => (.raised error, s)
          | .ok none => (.nothing, s)
          | .ok (some call) => (.underWay, { s with calls := s.calls.set caller (.issued call) })
  | .transact caller draws now => match s.calls.get? caller with
      | some (.issued call) => match call.transact s.db draws now with
          | .error error => (.raised error, { s with calls := s.calls.pop caller })
          | .ok (reread, db) => (.underWay, ⟨db, s.calls.set caller (.committed reread)⟩)
      | _ => (.idle, s)
  | .answer caller => match s.calls.get? caller with
      | some (.committed reread) => match reread.read s.db with
          | .error error => (.raised error, { s with calls := s.calls.pop caller })
          | .ok answer => (.returned answer, { s with calls := s.calls.pop caller })
      | _ => (.idle, s)

/-! ## Later tables -/

/-- `completed` or `cancelled`. -/
def TaskStatus.finished : TaskStatus → Bool
  | .completed | .cancelled => true
  | _ => false

theorem TaskStatus.not_finished_of_foreground {status : TaskStatus}
    (h : status.foreground = true) : status.finished = false := by
  cases status <;> first | rfl | cases h

/-- A later row of the same task: the same row, or one with a higher
revision, which leaves a finished task's status alone. -/
structure TaskRecord.Later (t t' : TaskRecord) : Prop where
  taskId : t'.taskId = t.taskId
  revision : t' = t ∨ t.revision < t'.revision
  status : t.status.finished = true → t'.status = t.status

structure TaskDb.Later (db db' : TaskDb) : Prop where
  tasks : ∀ t ∈ db.tasks, ∃ t' ∈ db'.tasks, t.Later t'
  plans : ∀ r ∈ db.plans, ∃ r' ∈ db'.plans, r'.planId = r.planId ∧ r'.taskId = r.taskId
  checkpoints : db.checkpoints ⊆ db'.checkpoints

theorem TaskRecord.Later.refl (t : TaskRecord) : t.Later t := ⟨rfl, .inl rfl, fun _ => rfl⟩

theorem TaskRecord.Later.trans {t t' t'' : TaskRecord} (h : t.Later t') (h' : t'.Later t'') :
    t.Later t'' := by
  refine ⟨h'.taskId.trans h.taskId, ?_, ?_⟩
  · rcases h.revision with rfl | hlt
    · exact h'.revision
    · rcases h'.revision with rfl | hlt'
      · exact .inr hlt
      · exact .inr (hlt.trans hlt')
  · intro hfinished
    have hstatus := h.status hfinished
    exact (h'.status (hstatus ▸ hfinished)).trans hstatus

theorem TaskDb.Later.refl (db : TaskDb) : db.Later db :=
  ⟨fun t ht => ⟨t, ht, .refl t⟩, fun r hr => ⟨r, hr, rfl, rfl⟩, List.Subset.refl _⟩

theorem TaskDb.Later.trans {db db' db'' : TaskDb} (h : db.Later db') (h' : db'.Later db'') :
    db.Later db'' := by
  refine ⟨fun t ht => ?_, fun r hr => ?_, List.Subset.trans h.checkpoints h'.checkpoints⟩
  · obtain ⟨t', ht', hlater⟩ := h.tasks t ht
    obtain ⟨t'', ht'', hlater'⟩ := h'.tasks t' ht'
    exact ⟨t'', ht'', hlater.trans hlater'⟩
  · obtain ⟨r', hr', hid, htask⟩ := h.plans r hr
    obtain ⟨r'', hr'', hid', htask'⟩ := h'.plans r' hr'
    exact ⟨r'', hr'', hid'.trans hid, htask'.trans htask⟩

/-- The constraints hold, and an active plan is there and the task's own. -/
structure Consistent (db : TaskDb) : Prop where
  unique : TasksUnique db.tasks
  plans : ∀ t ∈ db.tasks, ∀ planId, t.activePlanId = some planId →
    ∃ r ∈ db.plans, r.planId = planId ∧ r.taskId = t.taskId

/-! ## Transactions -/

section Transactions

variable {db db' : TaskDb}

theorem writeTasks_ok {tasks : List TaskRecord} (h : db.writeTasks tasks = .ok db') :
    TasksUnique tasks ∧ db' = { db with tasks := tasks } := by
  unfold writeTasks at h
  split at h
  · next hunique => exact ⟨hunique, (Except.ok.inj h).symm⟩
  · cases h

/-- An update that raises the revision, and meets no finished task whose
status it would change. -/
theorem later_update {p : TaskRecord → Bool} {f : TaskRecord → TaskRecord}
    (hid : ∀ t, (f t).taskId = t.taskId) (hrevision : ∀ t, t.revision < (f t).revision)
    (hstatus : ∀ t ∈ db.tasks, p t = true → t.status.finished = true → (f t).status = t.status) :
    db.Later { db with tasks := updateWhere p f db.tasks } := by
  refine ⟨fun t ht => ?_, fun r hr => ⟨r, hr, rfl, rfl⟩, List.Subset.refl _⟩
  by_cases hp : p t = true
  · exact ⟨f t, mem_updateWhere_of ht hp, hid t, .inr (hrevision t), hstatus t ht hp⟩
  · exact ⟨t, mem_updateWhere_of_not ht (Bool.eq_false_iff.mpr hp), .refl t⟩

theorem later_insert (t : TaskRecord) : db.Later { db with tasks := db.tasks ++ [t] } :=
  ⟨fun t ht => ⟨t, List.mem_append_left _ ht, .refl t⟩, fun r hr => ⟨r, hr, rfl, rfl⟩,
    List.Subset.refl _⟩

/-- An update that leaves the active plans. -/
theorem Consistent.update {p : TaskRecord → Bool} {f : TaskRecord → TaskRecord}
    (h : Consistent db) (hunique : TasksUnique (updateWhere p f db.tasks))
    (hid : ∀ t, (f t).taskId = t.taskId) (hplan : ∀ t, (f t).activePlanId = t.activePlanId) :
    Consistent { db with tasks := updateWhere p f db.tasks } := by
  refine ⟨hunique, fun t ht planId hactive => ?_⟩
  obtain ⟨t₀, ht₀, rfl⟩ := mem_updateWhere.mp ht
  by_cases hp : p t₀ = true
  · rw [if_pos hp, hplan] at hactive
    rw [if_pos hp, hid]
    exact h.plans t₀ ht₀ planId hactive
  · rw [if_neg hp] at hactive ⊢
    exact h.plans t₀ ht₀ planId hactive

theorem Consistent.insert {t : TaskRecord} (h : Consistent db)
    (hunique : TasksUnique (db.tasks ++ [t])) (hplan : t.activePlanId = none) :
    Consistent { db with tasks := db.tasks ++ [t] } := by
  refine ⟨hunique, fun t' ht' planId hactive => ?_⟩
  rcases List.mem_append.mp ht' with ht' | ht'
  · exact h.plans t' ht' planId hactive
  · rw [List.mem_singleton.mp ht', hplan] at hactive
    cases hactive

theorem createTask_spec {scopeKey goalText source requestedBy taskId : String}
    {status : TaskStatus} {now : Nat} (h : Consistent db)
    (hcall : db.createTask scopeKey goalText source requestedBy status taskId now = .ok db') :
    Consistent db' ∧ db.Later db' ∧ ∃ t ∈ db'.tasks, t.taskId = taskId := by
  obtain ⟨goal, -, hcall⟩ := bind_eq_ok.mp hcall
  obtain ⟨clean, -, hcall⟩ := bind_eq_ok.mp hcall
  split at hcall
  · next hwrite =>
      obtain rfl := Except.ok.inj hcall
      obtain ⟨hunique, rfl⟩ := writeTasks_ok hwrite
      exact ⟨h.insert hunique rfl, later_insert _, _,
        List.mem_append_right _ List.mem_cons_self, rfl⟩
  · cases hcall

theorem replaceForegroundTask_spec {scopeKey goalText source requestedBy taskId : String}
    {now : Nat} (h : Consistent db)
    (hcall : db.replaceForegroundTask scopeKey goalText source requestedBy taskId now = .ok db') :
    Consistent db' ∧ db.Later db' ∧ ∃ t ∈ db'.tasks, t.taskId = taskId := by
  obtain ⟨goal, -, hcall⟩ := bind_eq_ok.mp hcall
  obtain ⟨db₁, hcancel, hcall⟩ := bind_eq_ok.mp hcall
  obtain ⟨clean, -, hcall⟩ := bind_eq_ok.mp hcall
  obtain ⟨hunique₁, rfl⟩ := writeTasks_ok hcancel
  obtain ⟨hunique, rfl⟩ := writeTasks_ok hcall
  have hcancelled := h.update (f := cancelled now) hunique₁ (fun _ => rfl) (fun _ => rfl)
  have hlater : db.Later { db with
      tasks := updateWhere (fun t => t.scopeKey = scopeKey ∧ t.status.foreground) (cancelled now)
        db.tasks } := by
    refine later_update (fun _ => rfl) (fun t => by simp only [cancelled]; omega) ?_
    intro t _ hp hfinished
    rw [TaskStatus.not_finished_of_foreground (of_decide_eq_true hp).2] at hfinished
    cases hfinished
  exact ⟨hcancelled.insert hunique rfl, hlater.trans (later_insert _), _,
    List.mem_append_right _ List.mem_cons_self, rfl⟩

/-- The row that was read at this revision is not finished as long as it
stays at the revision. -/
def Pinned (db : TaskDb) (taskId : String) (revision : Int) : Prop :=
  ∃ t ∈ db.tasks, t.taskId = taskId ∧ revision ≤ t.revision
    ∧ (t.revision = revision → t.status.finished = false)

theorem Pinned.later {taskId : String} {revision : Int} (h : Pinned db taskId revision)
    (hlater : db.Later db') : Pinned db' taskId revision := by
  obtain ⟨t, ht, hid, hle, hopen⟩ := h
  obtain ⟨t', ht', hrow⟩ := hlater.tasks t ht
  refine ⟨t', ht', hrow.taskId.trans hid, ?_, ?_⟩
  · rcases hrow.revision with rfl | hlt
    · exact hle
    · exact hle.trans hlt.le
  · intro heq
    rcases hrow.revision with rfl | hlt
    · exact hopen heq
    · exact absurd (heq ▸ hlt) (not_lt.mpr hle)

theorem updateTaskAt_spec {taskId : String} {revision : Int} {f : TaskRecord → TaskRecord}
    (h : Consistent db) (hpinned : Pinned db taskId revision)
    (hid : ∀ t, (f t).taskId = t.taskId) (hplan : ∀ t, (f t).activePlanId = t.activePlanId)
    (hrevision : ∀ t, t.revision < (f t).revision)
    (hcall : db.updateTaskAt taskId revision f = .ok db') :
    Consistent db' ∧ db.Later db' ∧ (∃ t ∈ db'.tasks, t.taskId = taskId)
      ∧ db'.checkpoints = db.checkpoints := by
  obtain ⟨db₁, hwrite, hcall⟩ := bind_eq_ok.mp hcall
  obtain ⟨hunique, rfl⟩ := writeTasks_ok hwrite
  obtain ⟨t₀, ht₀, hid₀, -, hopen⟩ := hpinned
  split at hcall
  · cases hcall
  · obtain rfl := Except.ok.inj hcall
    have hlater : db.Later { db with
        tasks := updateWhere (atRevision taskId revision) f db.tasks } := by
      refine later_update hid hrevision ?_
      intro t ht hp hfinished
      obtain ⟨hid', hrevision'⟩ := of_decide_eq_true hp
      obtain rfl := h.unique.1.unique ht ht₀ (hid'.trans hid₀.symm)
      rw [hopen hrevision'] at hfinished
      cases hfinished
    refine ⟨h.update hunique hid hplan, hlater, ?_, rfl⟩
    obtain ⟨t', ht', hrow⟩ := hlater.tasks t₀ ht₀
    exact ⟨t', ht', hrow.taskId.trans hid₀⟩

theorem createCheckpoint_spec {taskId : String} {revision : Int}
    {disposition : CheckpointDisposition} {summary nextStep : String}
    {evidence waitFor : List String} {bodyFingerprint : Option (Option JsonObject)}
    {continuation : Option (Option ContinuationTerms)} {checkpointId : String} {now : Nat}
    (h : Consistent db) (hpinned : Pinned db taskId revision)
    (hcall : db.createCheckpoint taskId revision disposition summary nextStep evidence waitFor
      bodyFingerprint continuation checkpointId now = .ok db') :
    Consistent db' ∧ db.Later db' ∧ (∃ t ∈ db'.tasks, t.taskId = taskId)
      ∧ ∃ c ∈ db'.checkpoints, c.checkpointId = checkpointId := by
  obtain ⟨db₁, hupdate, hcall⟩ := bind_eq_ok.mp hcall
  obtain ⟨clean, -, hcall⟩ := bind_eq_ok.mp hcall
  obtain ⟨fingerprint, -, hcall⟩ := bind_eq_ok.mp hcall
  obtain ⟨contract, -, hcall⟩ := bind_eq_ok.mp hcall
  obtain ⟨hconsistent, hlater, htask, -⟩ := updateTaskAt_spec
    (f := checkpointed checkpointId disposition now) h hpinned (fun _ => rfl) (fun _ => rfl)
    (fun t => by simp only [checkpointed]; omega) hupdate
  dsimp only at hcall
  split at hcall
  · obtain rfl := Except.ok.inj hcall
    refine ⟨⟨hconsistent.unique, hconsistent.plans⟩, hlater.trans ⟨fun t ht => ⟨t, ht, .refl t⟩,
      fun r hr => ⟨r, hr, rfl, rfl⟩, List.subset_append_left _ _⟩, htask, _,
      List.mem_append_right _ List.mem_cons_self, rfl⟩
  · cases hcall

theorem insertSteps_ok {rows : List PlanStepRow} (h : db.insertSteps rows = .ok db') :
    db' = { db with steps := db.steps ++ rows } := by
  unfold insertSteps at h
  dsimp only at h
  split at h
  · exact (Except.ok.inj h).symm
  · cases h

theorem insertPlan_ok {plan : TaskPlanRow} (h : db.insertPlan plan = .ok db') :
    db' = { db with plans := db.plans ++ [plan] } := by
  unfold insertPlan at h
  split at h
  · exact (Except.ok.inj h).symm
  · cases h

/-- A first plan for the task. -/
theorem firstPlan_spec {taskId planId summary : String} {now : Nat} (h : Consistent db)
    (hunique : TasksUnique (updateWhere (·.taskId = taskId) (planned planId now) db.tasks)) :
    let db' := { db with
      plans := db.plans ++ [⟨planId, taskId, 1, summary, now, now⟩]
      tasks := updateWhere (·.taskId = taskId) (planned planId now) db.tasks }
    Consistent db' ∧ db.Later db' ∧ ∃ r ∈ db'.plans, r.taskId = taskId := by
  intro db'
  have hrows : db.Later { db with
      tasks := updateWhere (·.taskId = taskId) (planned planId now) db.tasks } :=
    later_update (fun _ => rfl) (fun t => by simp only [planned]; omega) (fun _ _ _ _ => rfl)
  have hnew : (⟨planId, taskId, 1, summary, now, now⟩ : TaskPlanRow) ∈ db'.plans :=
    List.mem_append_right _ List.mem_cons_self
  refine ⟨⟨hunique, fun t ht planId' hactive => ?_⟩,
    ⟨hrows.tasks, fun r hr => ⟨r, List.mem_append_left _ hr, rfl, rfl⟩, List.Subset.refl _⟩,
    _, hnew, rfl⟩
  obtain ⟨t₀, ht₀, rfl⟩ := mem_updateWhere.mp ht
  by_cases hid : t₀.taskId = taskId
  · rw [if_pos (decide_eq_true hid)] at hactive ⊢
    exact ⟨_, hnew, Option.some.inj hactive, hid.symm⟩
  · rw [if_neg (by simpa using hid)] at hactive ⊢
    obtain ⟨r, hr, hplan⟩ := h.plans t₀ ht₀ planId' hactive
    exact ⟨r, List.mem_append_left _ hr, hplan⟩

/-- A revision of a plan. -/
theorem revisePlan_spec {p : TaskPlanRow → Bool} {f : TaskPlanRow → TaskPlanRow}
    {steps : List PlanStepRow} (h : Consistent db) (hid : ∀ r, (f r).planId = r.planId)
    (htask : ∀ r, (f r).taskId = r.taskId) :
    let db' := { db with plans := updateWhere p f db.plans, steps := steps }
    Consistent db' ∧ db.Later db' := by
  intro db'
  have hplans : ∀ r ∈ db.plans, ∃ r' ∈ db'.plans, r'.planId = r.planId ∧ r'.taskId = r.taskId := by
    intro r hr
    refine ⟨_, mem_updateWhere.mpr ⟨r, hr, rfl⟩, ?_⟩
    split
    · exact ⟨hid r, htask r⟩
    · exact ⟨rfl, rfl⟩
  refine ⟨⟨h.unique, fun t ht planId hactive => ?_⟩,
    ⟨fun t ht => ⟨t, ht, .refl t⟩, hplans, List.Subset.refl _⟩⟩
  obtain ⟨r, hr, hplan, hown⟩ := h.plans t ht planId hactive
  obtain ⟨r', hr', hid', htask'⟩ := hplans r hr
  exact ⟨r', hr', hid'.trans hplan, htask'.trans hown⟩

theorem Consistent.withSteps (h : Consistent db) (steps : List PlanStepRow) :
    Consistent { db with steps := steps } := ⟨h.unique, h.plans⟩

theorem later_withSteps (h : db.Later db') (steps : List PlanStepRow) :
    db.Later { db' with steps := steps } := ⟨h.tasks, h.plans, h.checkpoints⟩

theorem updatePlan_spec {taskId : String} {expectedRevision : Int} {summary : String}
    {steps : List (Option PlanStepInput)} {planId : String} {stepId : Nat → String} {now : Nat}
    (h : Consistent db)
    (hcall : db.updatePlan taskId expectedRevision summary steps planId stepId now = .ok db') :
    Consistent db' ∧ db.Later db' ∧ ∃ r ∈ db'.plans, r.taskId = taskId := by
  obtain ⟨normalized, -, hcall⟩ := bind_eq_ok.mp hcall
  dsimp only at hcall
  split at hcall
  · cases hcall
  · next task hfind =>
      have htask := List.mem_of_find?_eq_some hfind
      obtain rfl : task.taskId = taskId := by simpa using List.find?_some hfind
      split at hcall
      · split at hcall
        · cases hcall
        · obtain ⟨db₁, hplan, hcall⟩ := bind_eq_ok.mp hcall
          obtain ⟨db₂, hwrite, hcall⟩ := bind_eq_ok.mp hcall
          obtain rfl := insertPlan_ok hplan
          obtain ⟨hunique, rfl⟩ := writeTasks_ok hwrite
          obtain rfl := insertSteps_ok hcall
          obtain ⟨hconsistent, hlater, hrow⟩ := firstPlan_spec h hunique
          exact ⟨hconsistent.withSteps _, later_withSteps hlater _, hrow⟩
      · next active hactive =>
          split at hcall
          · cases hcall
          · split at hcall
            · cases hcall
            · obtain rfl := insertSteps_ok hcall
              obtain ⟨r, hr, -, hown⟩ := h.plans task htask active hactive
              obtain ⟨hconsistent, hlater⟩ := revisePlan_spec (p := fun r => r.planId = active)
                (f := replanned _ (boundedText summary 4000) now) h (fun _ => rfl) (fun _ => rfl)
              refine ⟨hconsistent.withSteps _, later_withSteps hlater _, ?_⟩
              obtain ⟨r', hr', -, hown'⟩ := hlater.plans r hr
              exact ⟨r', hr', hown'.trans hown⟩

end Transactions

/-! ## Operations over the tables -/

/-- What an operation will read is there. -/
def Readable (db : TaskDb) : Reread → Prop
  | .task taskId => ∃ t ∈ db.tasks, t.taskId = taskId
  | .plan taskId => ∃ r ∈ db.plans, r.taskId = taskId
  | .checkpoint taskId checkpointId =>
      (∃ t ∈ db.tasks, t.taskId = taskId) ∧ ∃ c ∈ db.checkpoints, c.checkpointId = checkpointId

/-- What an operation under way relies on. -/
def CallPhase.Sound (db : TaskDb) : CallPhase → Prop
  | .issued (.transitionTask taskId revision _ _) => Pinned db taskId revision
  | .issued (.createCheckpoint taskId revision ..) => Pinned db taskId revision
  | .issued _ => True
  | .committed reread => Readable db reread

section Operations

variable {db db' : TaskDb}

theorem exists_task_later {taskId : String} (hlater : db.Later db')
    (h : ∃ t ∈ db.tasks, t.taskId = taskId) : ∃ t ∈ db'.tasks, t.taskId = taskId := by
  obtain ⟨t, ht, hid⟩ := h
  obtain ⟨t', ht', hrow⟩ := hlater.tasks t ht
  exact ⟨t', ht', hrow.taskId.trans hid⟩

theorem Readable.later {reread : Reread} (h : Readable db reread) (hlater : db.Later db') :
    Readable db' reread := by
  cases reread with
  | task taskId => exact exists_task_later hlater h
  | plan taskId =>
      obtain ⟨r, hr, hid⟩ := h
      obtain ⟨r', hr', -, htask⟩ := hlater.plans r hr
      exact ⟨r', hr', htask.trans hid⟩
  | checkpoint taskId checkpointId =>
      obtain ⟨htask, c, hc, hid⟩ := h
      exact ⟨exists_task_later hlater htask, c, hlater.checkpoints hc, hid⟩

theorem exists_getTask {taskId : String} (h : ∃ t ∈ db.tasks, t.taskId = taskId) :
    ∃ t, db.getTask taskId = some t := by
  obtain ⟨t, ht, hid⟩ := h
  exact Option.isSome_iff_exists.mp (List.find?_isSome.mpr ⟨t, ht, decide_eq_true hid⟩)

/-- The assertion after a transaction holds. -/
theorem Readable.read {reread : Reread} (h : Readable db reread) :
    ∃ answer, reread.read db = .ok answer := by
  cases reread with
  | task taskId =>
      obtain ⟨t, hfind⟩ := exists_getTask h
      exact ⟨.task t, by simp only [Reread.read, hfind]⟩
  | plan taskId =>
      obtain ⟨r, hr, hid⟩ := h
      have hsome : (db.getPlan taskId).isSome := by
        rw [getPlan, Option.isSome_map]
        exact List.find?_isSome.mpr ⟨r, hr, decide_eq_true hid⟩
      obtain ⟨record, hfind⟩ := Option.isSome_iff_exists.mp hsome
      exact ⟨.plan record.1 record.2, by simp only [Reread.read, hfind]⟩
  | checkpoint taskId checkpointId =>
      obtain ⟨htask, c, hc, hid⟩ := h
      obtain ⟨t, hfind⟩ := exists_getTask htask
      have hsome : (db.getCheckpoint checkpointId).isSome :=
        List.find?_isSome.mpr ⟨c, hc, decide_eq_true hid⟩
      obtain ⟨c', hfind'⟩ := Option.isSome_iff_exists.mp hsome
      exact ⟨.checkpoint t c', by simp only [Reread.read, hfind, hfind']⟩

theorem CallPhase.Sound.later {phase : CallPhase} (h : phase.Sound db) (hlater : db.Later db') :
    phase.Sound db' := by
  cases phase with
  | committed reread => exact Readable.later h hlater
  | issued call =>
      cases call with
      | transitionTask => exact Pinned.later h hlater
      | createCheckpoint => exact Pinned.later h hlater
      | _ => trivial

/-- The foreground task that is read is one of the rows. -/
theorem mem_of_getForegroundTask {scopeKey : String} {t : TaskRecord}
    (h : db.getForegroundTask scopeKey = some t) :
    t ∈ db.tasks ∧ t.scopeKey = scopeKey ∧ t.status.foreground = true := by
  have hfold : ∀ (rows : List TaskRecord) (best : Option TaskRecord),
      rows.foldl (fun best t => match best with
        | none => some t
        | some b =>
            if b.updatedAt < t.updatedAt ∨ b.updatedAt = t.updatedAt ∧ b.taskId < t.taskId
            then some t else some b) best = some t → t ∈ rows ∨ best = some t := by
    intro rows
    induction rows with
    | nil => exact fun best h => .inr h
    | cons r rows ih =>
        intro best h
        rcases ih _ h with hmem | hbest
        · exact .inl (List.mem_cons_of_mem _ hmem)
        · dsimp only at hbest
          split at hbest
          · exact .inl (Option.some.inj hbest ▸ List.mem_cons_self)
          · split at hbest
            · exact .inl (Option.some.inj hbest ▸ List.mem_cons_self)
            · exact .inr hbest
  rcases hfold _ none h with hmem | hnone
  · obtain ⟨hmem, hrow⟩ := List.mem_filter.mp hmem
    exact ⟨hmem, of_decide_eq_true hrow⟩
  · cases hnone

theorem pinned_of_getForegroundTask {scopeKey : String} {t : TaskRecord}
    (h : db.getForegroundTask scopeKey = some t) : Pinned db t.taskId t.revision := by
  obtain ⟨hmem, -, hforeground⟩ := mem_of_getForegroundTask h
  exact ⟨t, hmem, rfl, le_refl _, fun _ => TaskStatus.not_finished_of_foreground hforeground⟩

theorem issue_sound {scopeKey : String} {op : WorkspaceOp} {call : StoreCall}
    (h : op.issue db scopeKey = .ok (some call)) : (CallPhase.issued call).Sound db := by
  have htransition : ∀ {status authority}, (db.getForegroundTask scopeKey).map (fun task =>
      StoreCall.transitionTask task.taskId task.revision status authority) = some call →
      (CallPhase.issued call).Sound db := by
    intro status authority hmap
    obtain ⟨t, hread, rfl⟩ := Option.map_eq_some_iff.mp hmap
    exact pinned_of_getForegroundTask hread
  cases op with
  | start =>
      cases h
      trivial
  | replace =>
      cases h
      trivial
  | pause => exact htransition (Except.ok.inj h)
  | resume => exact htransition (Except.ok.inj h)
  | cancel => exact htransition (Except.ok.inj h)
  | complete => exact htransition (Except.ok.inj h)
  | checkpoint expectedTaskRevision =>
      simp only [WorkspaceOp.issue] at h
      split at h
      · cases h
      · next t hread =>
          repeat' split at h
          · cases h
          · cases h
          · cases h
          · next hrevision =>
              cases h
              exact not_not.mp hrevision ▸ pinned_of_getForegroundTask hread
  | updatePlan =>
      simp only [WorkspaceOp.issue] at h
      split at h
      · cases h
      · cases h
        trivial

/-- Every transaction leaves consistent, later tables that hold what the
method reads next. -/
theorem transact_spec {call : StoreCall} {draws : Draws} {now : Nat} {reread : Reread}
    (h : Consistent db) (hsound : (CallPhase.issued call).Sound db)
    (hcall : call.transact db draws now = .ok (reread, db')) :
    Consistent db' ∧ db.Later db' ∧ Readable db' reread := by
  cases call with
  | createTask =>
      obtain ⟨db₁, hcall, heq⟩ := bind_eq_ok.mp hcall
      cases heq
      exact createTask_spec h hcall
  | replaceForegroundTask =>
      obtain ⟨db₁, hcall, heq⟩ := bind_eq_ok.mp hcall
      cases heq
      exact replaceForegroundTask_spec h hcall
  | transitionTask taskId revision status authority =>
      obtain ⟨db₁, hcall, heq⟩ := bind_eq_ok.mp hcall
      cases heq
      obtain ⟨hconsistent, hlater, htask, -⟩ := updateTaskAt_spec
        (f := transitioned status authority now) h hsound (fun _ => rfl) (fun _ => rfl)
        (fun t => by simp only [transitioned]; omega) hcall
      exact ⟨hconsistent, hlater, htask⟩
  | createCheckpoint =>
      obtain ⟨db₁, hcall, heq⟩ := bind_eq_ok.mp hcall
      cases heq
      exact createCheckpoint_spec h hsound hcall
  | updatePlan =>
      obtain ⟨db₁, hcall, heq⟩ := bind_eq_ok.mp hcall
      cases heq
      exact updatePlan_spec h hcall

end Operations

/-! ## Runs -/

structure WorkspaceState.Sound (s : WorkspaceState) : Prop where
  consistent : Consistent s.db
  calls : ∀ e ∈ s.calls, e.2.Sound s.db

section Runs

variable {s : WorkspaceState}

theorem WorkspaceState.Sound.phase {caller : Nat} {phase : CallPhase} (h : s.Sound)
    (hget : s.calls.get? caller = some phase) : phase.Sound s.db :=
  h.calls _ (Dict.mem_of_get? hget)

theorem WorkspaceState.Sound.pop (h : s.Sound) (caller : Nat) :
    WorkspaceState.Sound { s with calls := s.calls.pop caller } :=
  ⟨h.consistent, fun e he => h.calls e (List.mem_filter.mp he).1⟩

/-- One critical section: the state stays sound, the tables are later. -/
theorem workspaceStep_spec (h : s.Sound) (i : WorkspaceInput) :
    (workspaceStep s i).2.Sound ∧ s.db.Later (workspaceStep s i).2.db := by
  cases i with
  | call caller scopeKey op =>
      simp only [workspaceStep]
      split
      · exact ⟨h, .refl _⟩
      · split
        · exact ⟨h, .refl _⟩
        · exact ⟨h, .refl _⟩
        · next call hissue =>
            refine ⟨⟨h.consistent, fun e he => ?_⟩, .refl _⟩
            rcases Dict.mem_of_mem_set he with rfl | he
            · exact issue_sound hissue
            · exact h.calls e he
  | transact caller draws now =>
      simp only [workspaceStep]
      split
      · next call hget =>
          split
          · exact ⟨h.pop caller, .refl _⟩
          · next reread db hcall =>
              obtain ⟨hconsistent, hlater, hread⟩ :=
                transact_spec h.consistent (h.phase hget) hcall
              refine ⟨⟨hconsistent, fun e he => ?_⟩, hlater⟩
              rcases Dict.mem_of_mem_set he with rfl | he
              · exact hread
              · exact (h.calls e he).later hlater
      · exact ⟨h, .refl _⟩
  | answer caller =>
      simp only [workspaceStep]
      split
      · split
        · exact ⟨h.pop caller, .refl _⟩
        · exact ⟨h.pop caller, .refl _⟩
      · exact ⟨h, .refl _⟩

/-- Only a transaction that does not raise changes the tables. -/
theorem transact_of_db_ne {i : WorkspaceInput} (h : (workspaceStep s i).2.db ≠ s.db) :
    ∃ caller draws now, i = .transact caller draws now ∧ (workspaceStep s i).1 = .underWay := by
  cases i with
  | call caller scopeKey op =>
      refine absurd ?_ h
      simp only [workspaceStep]
      repeat' split
      all_goals rfl
  | transact caller draws now =>
      refine ⟨caller, draws, now, rfl, ?_⟩
      simp only [workspaceStep] at h ⊢
      split
      · next call hget =>
          rw [hget] at h
          dsimp only at h
          split
          · next error hcall =>
              rw [hcall] at h
              exact absurd rfl h
          · rfl
      · next hget =>
          refine absurd ?_ h
          split
          · next call hget' => exact absurd hget' (hget call)
          · rfl
  | answer caller =>
      refine absurd ?_ h
      simp only [workspaceStep]
      repeat' split
      all_goals rfl

/-- The read after a transaction does not raise. -/
theorem answer_not_raised (h : s.Sound) (caller : Nat) (error : TaskError) :
    (workspaceStep s (.answer caller)).1 ≠ .raised error := by
  simp only [workspaceStep]
  split
  · next reread hget =>
      obtain ⟨answer, hread⟩ := Readable.read (h.phase hget)
      rw [hread]
      simp
  · simp

theorem sound_of_run {log : List (WorkspaceInput × WorkspaceOutput)}
    (hrun : Run workspaceStep (fun _ _ _ => True) .init log s) : s.Sound := by
  refine hrun.invariant (P := fun _ s => s.Sound) ?_ ?_
  · have hunique : TasksUnique [] := ⟨List.nodup_nil, List.nodup_nil⟩
    exact ⟨⟨hunique, by simp [WorkspaceState.init]⟩, by simp [WorkspaceState.init]⟩
  · intro _ s i _ _ h
    exact (workspaceStep_spec h i).1

end Runs

/-- Task safety: one foreground task a scope, rows that change only to a
higher revision, statuses that stay once they are final, and operations
that change nothing when they raise (a raise comes from the first read or
from the transaction, and the tables change only in a transaction that
does not raise). -/
theorem task_safety (log : List (WorkspaceInput × WorkspaceOutput)) (s : WorkspaceState)
    (hrun : Run workspaceStep (fun _ _ _ => True) .init log s) :
    (∀ scopeKey, (s.db.tasks.filter fun t =>
        t.scopeKey = scopeKey ∧ t.status.foreground).length ≤ 1)
    ∧ (∀ post s', Leads workspaceStep (fun _ _ _ => True) log s post s' →
        s.db.Later s'.db ∧ Keyed (·.taskId) s'.db.tasks)
    ∧ (∀ i error, (workspaceStep s i).1 = .raised error →
        (workspaceStep s i).2.db = s.db ∧ ∀ caller, i ≠ .answer caller)
    ∧ ∀ i, (workspaceStep s i).2.db ≠ s.db →
        ∃ caller draws now, i = .transact caller draws now ∧ (workspaceStep s i).1 = .underWay := by
  have hsound := sound_of_run hrun
  refine ⟨fun scopeKey => ?_, fun post s' hleads => ?_, fun i error hraised => ⟨?_, ?_⟩,
    fun i => transact_of_db_ne⟩
  · have hone := Keyed.length_filter_le_one hsound.consistent.unique.2 scopeKey
    rw [List.filter_filter] at hone
    refine le_trans (le_of_eq (congrArg List.length (List.filter_congr fun t _ => ?_))) hone
    simp
  · have hlater := hleads.invariant (P := fun _ s' => s'.Sound ∧ s.db.Later s'.db) hrun
      ⟨hsound, .refl _⟩ fun _ s' i _ _ ⟨h, hlater⟩ =>
        ⟨(workspaceStep_spec h i).1, hlater.trans (workspaceStep_spec h i).2⟩
    exact ⟨hlater.2, hlater.1.consistent.unique.1⟩
  · by_contra hne
    obtain ⟨_, _, _, -, hout⟩ := transact_of_db_ne hne
    rw [hout] at hraised
    cases hraised
  · rintro caller rfl
    exact answer_not_raised hsound caller error hraised

/-- A goal is replaced while its pause is under way. -/
def replacedPause : List WorkspaceInput :=
  [.call 0 "scope" (.start "dig a shelter" "player" ""), .transact 0 ⟨"task-1", fun _ => ""⟩ 1,
    .answer 0, .call 0 "scope" .pause, .call 1 "scope" (.replace "collect wood" "player" ""),
    .transact 1 ⟨"task-2", fun _ => ""⟩ 2]

/-- The pause is then refused, and changes nothing. -/
theorem task_safety_replacedPause :
    (workspaceStep (exec workspaceStep .init replacedPause).2
        (.transact 0 ⟨"", fun _ => ""⟩ 3)).2.db
      = (exec workspaceStep .init replacedPause).2.db :=
  ((task_safety _ _ (Run.of_inputs replacedPause fun _ _ _ _ => trivial)).2.2.1
    (.transact 0 ⟨"", fun _ => ""⟩ 3) (.taskRevision "task-1" 1) (by decide +kernel)).1

end MineBot
