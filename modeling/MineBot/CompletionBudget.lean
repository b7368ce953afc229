import MineBot.ContinuationBudget
import MineBot.TaskWorkspace

/-!
# The budget of a rejected completion

`completion_review_budget_owner` names the continuation that pays for the
turn after a rejected completion request, `reserve_continuation_epoch`
charges it. The first takes the last two checkpoints of the task, the
second two consecutive task revisions. Checkpoints are not the only
things that raise a task's revision: the first plan, a pause and a
resume do as well.

`Chronicle` is how a task and its checkpoints agree in every state; with
it the two ways are compared on any run.
-/

namespace MineBot

open Table TaskDb

/-! ## The owner -/

section Owner

variable (db : TaskDb) (scopeKey taskId : String)

/-- The checkpoints of a task, as they were written. -/
def checkpointsOf : List TaskCheckpointRow := db.checkpoints.filter (·.taskId = taskId)

/-- `list_task_checkpoints`. -/
def listTaskCheckpoints : List TaskCheckpointRow :=
  (checkpointsOf db taskId).insertionSort fun c c' =>
    c.revision < c'.revision ∨ c.revision = c'.revision ∧ c.createdAt ≤ c'.createdAt

/-- The completion request and the continuation before it, in a task's
checkpoints from the last one back. -/
def pendingAndOwner : List TaskCheckpointRow → Option (TaskCheckpointRow × TaskCheckpointRow)
  | pending :: owner :: _ =>
      if pending.disposition ≠ .complete ∨ owner.disposition ≠ .continue
          ∨ owner.continuation = none then none
      else some (pending, owner)
  | _ => none

/-- The rows that `completion_review_budget_owner` decides by. -/
def reviewRows : Option (TaskRecord × TaskCheckpointRow × TaskCheckpointRow) := do
  let task ← db.getForegroundTask scopeKey
  if task.status ≠ .waitingEvent then none
  else (pendingAndOwner (listTaskCheckpoints db task.taskId).reverse).map fun rows => (task, rows)

/-- `completion_review_budget_owner`. -/
def completionReviewBudgetOwner : Option String :=
  (reviewRows db scopeKey).map fun rows => rows.2.2.checkpointId

end Owner

/-! ## Workspaces and the budget, over one database -/

/-- What the budget reads of a checkpoint. -/
def TaskCheckpointRow.budgetRow (c : TaskCheckpointRow) : CheckpointRow :=
  ⟨c.checkpointId, c.taskId, c.revision, c.disposition,
    c.continuation.map (·.toContinuationContract)⟩

structure FundedState where
  workspace : WorkspaceState
  approaches : List ApproachRow
  settlements : List SettlementRow
  reservations : List ReservationRow

namespace FundedState

def init : FundedState := ⟨.init, [], [], []⟩

/-- The database, as the budget sees it. -/
def runtime (s : FundedState) : RuntimeState where
  tasks := s.workspace.db.tasks.map (·.toTaskRow)
  checkpoints := s.workspace.db.checkpoints.map (·.budgetRow)
  workIntents := []
  approaches := s.approaches
  settlements := s.settlements
  reservations := s.reservations

/-- The budget's tables after a call. -/
def withBudget (s : FundedState) (runtime : RuntimeState) : FundedState :=
  { s with
    approaches := runtime.approaches
    settlements := runtime.settlements
    reservations := runtime.reservations }

end FundedState

inductive FundedInput where
  | workspace (input : WorkspaceInput)
  | settle (scope : RuntimeScope) (checkpointId taskId approachKey : String)
      (budgetLimit consumedEpochs : Int)
  | reserve (scope : RuntimeScope) (checkpointId epochId : String)

inductive FundedOutput where
  | workspace (output : WorkspaceOutput)
  | budget (output : BudgetOutput)

/-- One critical section of a workspace, or one call of the budget. -/
def fundedStep (s : FundedState) : FundedInput → FundedOutput × FundedState
  | .workspace input =>
      (.workspace (workspaceStep s.workspace input).1,
        { s with workspace := (workspaceStep s.workspace input).2 })
  | .settle scope checkpointId taskId approachKey budgetLimit consumedEpochs =>
      let result := budgetStep s.runtime
        (.settle scope checkpointId taskId approachKey budgetLimit consumedEpochs)
      (.budget result.1, s.withBudget result.2)
  | .reserve scope checkpointId epochId =>
      let result := budgetStep s.runtime (.reserve scope checkpointId epochId)
      (.budget result.1, s.withBudget result.2)

abbrev FundedRun : List (FundedInput × FundedOutput) → FundedState → Prop :=
  Run fundedStep (fun _ _ _ => True) .init

/-! ## Tasks and their checkpoints -/

/-- Every checkpoint is at a revision its task has come to, those of one
task in the order they were written, and the latest one is the last. -/
structure Chronicle (db : TaskDb) : Prop where
  ids : Keyed (·.checkpointId) db.checkpoints
  tasks : ∀ c ∈ db.checkpoints, ∃ t ∈ db.tasks, t.taskId = c.taskId ∧ c.revision ≤ t.revision
  ordered : db.checkpoints.Pairwise fun c c' => c.taskId = c'.taskId → c.revision < c'.revision
  latest : ∀ t ∈ db.tasks,
    t.latestCheckpointId = (checkpointsOf db t.taskId).getLast?.map (·.checkpointId)

section Chronicle

variable {db db' : TaskDb}

/-- An update of task rows that keeps their latest checkpoint. -/
theorem Chronicle.rows {p : TaskRecord → Bool} {f : TaskRecord → TaskRecord} (h : Chronicle db)
    (hid : ∀ t, (f t).taskId = t.taskId) (hrevision : ∀ t, t.revision ≤ (f t).revision)
    (hlatest : ∀ t, (f t).latestCheckpointId = t.latestCheckpointId) :
    Chronicle { db with tasks := updateWhere p f db.tasks } := by
  refine ⟨h.ids, fun c hc => ?_, h.ordered, fun t ht => ?_⟩
  · obtain ⟨t, ht, htask, hle⟩ := h.tasks c hc
    refine ⟨_, mem_updateWhere.mpr ⟨t, ht, rfl⟩, ?_⟩
    split
    · exact ⟨(hid t).trans htask, hle.trans (hrevision t)⟩
    · exact ⟨htask, hle⟩
  · obtain ⟨t₀, ht₀, rfl⟩ := mem_updateWhere.mp ht
    have hrow := h.latest t₀ ht₀
    split
    · rw [hlatest, hid]
      exact hrow
    · exact hrow

/-- A new task has no checkpoints yet. -/
theorem Chronicle.opened {t : TaskRecord} (h : Chronicle db) (hunique : TasksUnique (db.tasks ++ [t]))
    (hnone : t.latestCheckpointId = none) : Chronicle { db with tasks := db.tasks ++ [t] } := by
  refine ⟨h.ids, fun c hc => ?_, h.ordered, fun t' ht' => ?_⟩
  · obtain ⟨t', ht', hrow⟩ := h.tasks c hc
    exact ⟨t', List.mem_append_left _ ht', hrow⟩
  · rcases List.mem_append.mp ht' with hold | hnew
    · exact h.latest t' hold
    · obtain rfl := List.mem_singleton.mp hnew
      have hempty : checkpointsOf db t'.taskId = [] := by
        refine List.filter_eq_nil_iff.mpr fun c hc htask => ?_
        obtain ⟨t₀, ht₀, hid, -⟩ := h.tasks c hc
        have hsame : t₀.taskId = t'.taskId := hid.trans (of_decide_eq_true htask)
        have hkeys := hunique.1
        rw [Keyed, List.map_append, List.nodup_append] at hkeys
        exact hkeys.2.2 _ (List.mem_map_of_mem ht₀) _ List.mem_cons_self hsame
      show t'.latestCheckpointId = (checkpointsOf db t'.taskId).getLast?.map _
      rw [hnone, hempty]
      rfl

/-- A new checkpoint, at the revision its task comes to with it. -/
theorem Chronicle.checkpoint {c : TaskCheckpointRow} {revision : Int} {now : Nat}
    {disposition : CheckpointDisposition} (h : Chronicle db) (htasks : Keyed (·.taskId) db.tasks)
    (hone : db.tasks.countP (atRevision c.taskId revision) = 1)
    (hrevision : c.revision = revision + 1)
    (hkeyed : Keyed (·.checkpointId) (db.checkpoints ++ [c])) :
    Chronicle { db with
      tasks := updateWhere (atRevision c.taskId revision)
        (checkpointed c.checkpointId disposition now) db.tasks
      checkpoints := db.checkpoints ++ [c] } := by
  obtain ⟨t₀, ht₀, hrow⟩ := List.countP_pos_iff.mp (hone ▸ Nat.one_pos)
  obtain ⟨hid₀, hrevision₀⟩ := of_decide_eq_true hrow
  have hrows : ∀ c' ∈ db.checkpoints, ∃ t ∈ updateWhere (atRevision c.taskId revision)
      (checkpointed c.checkpointId disposition now) db.tasks,
      t.taskId = c'.taskId ∧ c'.revision ≤ t.revision := by
    intro c' hc'
    obtain ⟨t, ht, htask, hle⟩ := h.tasks c' hc'
    refine ⟨_, mem_updateWhere.mpr ⟨t, ht, rfl⟩, ?_⟩
    split
    · exact ⟨htask, by simp only [checkpointed]; omega⟩
    · exact ⟨htask, hle⟩
  refine ⟨hkeyed, fun c' hc' => ?_, ?_, fun t ht => ?_⟩
  · rcases List.mem_append.mp hc' with hold | hnew
    · exact hrows c' hold
    · obtain rfl := List.mem_singleton.mp hnew
      refine ⟨_, mem_updateWhere_of ht₀ hrow, hid₀, ?_⟩
      simp only [checkpointed]
      omega
  · rw [List.pairwise_append]
    refine ⟨h.ordered, List.pairwise_singleton .., fun c' hc' c'' hc'' hsame => ?_⟩
    obtain rfl := List.mem_singleton.mp hc''
    obtain ⟨t, ht, htask, hle⟩ := h.tasks c' hc'
    obtain rfl := htasks.unique ht ht₀ ((htask.trans hsame).trans hid₀.symm)
    omega
  · obtain ⟨t', ht', rfl⟩ := mem_updateWhere.mp ht
    rw [checkpointsOf, List.filter_append]
    by_cases hat : atRevision c.taskId revision t' = true
    · have hid : t'.taskId = c.taskId := (of_decide_eq_true hat).1
      rw [if_pos hat]
      simp [checkpointed, hid]
    · have hid : c.taskId ≠ t'.taskId := by
        intro hid
        obtain rfl := htasks.unique ht' ht₀ (hid.symm.trans hid₀.symm)
        exact hat hrow
      rw [if_neg hat, List.filter_singleton, decide_eq_false hid]
      simpa [checkpointsOf] using h.latest t' ht'

theorem transact_chronicle {call : StoreCall} {draws : Draws} {now : Nat} {reread : Reread}
    (h : Chronicle db) (hconsistent : Consistent db)
    (hcall : call.transact db draws now = .ok (reread, db')) : Chronicle db' := by
  cases call with
  | createTask =>
      obtain ⟨db₁, hcall, heq⟩ := bind_eq_ok.mp hcall
      cases heq
      obtain ⟨goal, -, hcall⟩ := bind_eq_ok.mp hcall
      obtain ⟨clean, -, hcall⟩ := bind_eq_ok.mp hcall
      split at hcall
      · next hwrite =>
          obtain rfl := Except.ok.inj hcall
          obtain ⟨hunique, rfl⟩ := writeTasks_ok hwrite
          exact h.opened hunique rfl
      · cases hcall
  | replaceForegroundTask =>
      obtain ⟨db₁, hcall, heq⟩ := bind_eq_ok.mp hcall
      cases heq
      obtain ⟨goal, -, hcall⟩ := bind_eq_ok.mp hcall
      obtain ⟨db₁, hcancel, hcall⟩ := bind_eq_ok.mp hcall
      obtain ⟨clean, -, hcall⟩ := bind_eq_ok.mp hcall
      obtain ⟨-, rfl⟩ := writeTasks_ok hcancel
      obtain ⟨hunique, rfl⟩ := writeTasks_ok hcall
      exact (h.rows (f := cancelled now) (fun _ => rfl)
        (fun t => by simp only [cancelled]; omega) fun _ => rfl).opened hunique rfl
  | transitionTask taskId revision status authority =>
      obtain ⟨db₁, hcall, heq⟩ := bind_eq_ok.mp hcall
      cases heq
      obtain ⟨db₁, hwrite, hcall⟩ := bind_eq_ok.mp hcall
      obtain ⟨-, rfl⟩ := writeTasks_ok hwrite
      split at hcall
      · cases hcall
      · obtain rfl := Except.ok.inj hcall
        exact h.rows (fun _ => rfl) (fun t => by simp only [transitioned]; omega) fun _ => rfl
  | createCheckpoint taskId revision disposition =>
      obtain ⟨db₁, hcall, heq⟩ := bind_eq_ok.mp hcall
      cases heq
      obtain ⟨db₁, hupdate, hcall⟩ := bind_eq_ok.mp hcall
      obtain ⟨clean, -, hcall⟩ := bind_eq_ok.mp hcall
      obtain ⟨fingerprint, -, hcall⟩ := bind_eq_ok.mp hcall
      obtain ⟨contract, -, hcall⟩ := bind_eq_ok.mp hcall
      obtain ⟨db₂, hwrite, hupdate⟩ := bind_eq_ok.mp hupdate
      obtain ⟨-, rfl⟩ := writeTasks_ok hwrite
      split at hupdate
      · cases hupdate
      · next hone =>
          obtain rfl := Except.ok.inj hupdate
          dsimp only at hcall
          split at hcall
          · next hkeyed =>
              obtain rfl := Except.ok.inj hcall
              exact h.checkpoint hconsistent.unique.1 (not_not.mp hone) rfl hkeyed
          · cases hcall
  | updatePlan taskId =>
      obtain ⟨db₁, hcall, heq⟩ := bind_eq_ok.mp hcall
      cases heq
      obtain ⟨normalized, -, hcall⟩ := bind_eq_ok.mp hcall
      dsimp only at hcall
      split at hcall
      · cases hcall
      · split at hcall
        · split at hcall
          · cases hcall
          · obtain ⟨db₁, hplan, hcall⟩ := bind_eq_ok.mp hcall
            obtain ⟨db₂, hwrite, hcall⟩ := bind_eq_ok.mp hcall
            obtain rfl := insertPlan_ok hplan
            obtain ⟨-, rfl⟩ := writeTasks_ok hwrite
            obtain rfl := insertSteps_ok hcall
            have hrows := h.rows (p := fun t => t.taskId = taskId) (f := planned draws.id now) (fun _ => rfl)
              (fun t => by simp only [planned]; omega) fun _ => rfl
            exact ⟨hrows.ids, hrows.tasks, hrows.ordered, hrows.latest⟩
        · split at hcall
          · cases hcall
          · split at hcall
            · cases hcall
            · obtain rfl := insertSteps_ok hcall
              exact ⟨h.ids, h.tasks, h.ordered, h.latest⟩

end Chronicle

/-! ## Runs -/

section Runs

variable {s : FundedState} {log : List (FundedInput × FundedOutput)}

/-- A critical section of a workspace keeps the chronicle. -/
theorem workspaceStep_chronicle {w : WorkspaceState} (h : Chronicle w.db) (hsound : w.Sound)
    (i : WorkspaceInput) : Chronicle (workspaceStep w i).2.db := by
  by_cases hsame : (workspaceStep w i).2.db = w.db
  · rw [hsame]
    exact h
  · obtain ⟨caller, draws, now, rfl, -⟩ := transact_of_db_ne hsame
    simp only [workspaceStep]
    split
    · split
      · exact h
      · next hcall => exact transact_chronicle h hsound.consistent hcall
    · exact h

theorem FundedRun.chronicle (h : FundedRun log s) :
    s.workspace.Sound ∧ Chronicle s.workspace.db := by
  refine h.invariant (P := fun _ s => s.workspace.Sound ∧ Chronicle s.workspace.db) ?_ ?_
  · refine ⟨sound_of_run .start, ?_, ?_, ?_, ?_⟩ <;>
      simp [FundedState.init, WorkspaceState.init, Keyed]
  · intro _ s i _ _ hs
    cases i with
    | workspace input =>
        exact ⟨(workspaceStep_spec hs.1 input).1, workspaceStep_chronicle hs.2 hs.1 input⟩
    | settle => exact hs
    | reserve => exact hs

end Runs

/-! ## Charging the owner -/

/-- The scope's task is running again, with no further checkpoint. -/
def Resumed (db db' : TaskDb) (scopeKey : String) : Prop :=
  ∃ task task', db.getForegroundTask scopeKey = some task ∧
    db'.getForegroundTask scopeKey = some task' ∧ task'.taskId = task.taskId ∧
    task'.status = .running ∧
    listTaskCheckpoints db' task.taskId = listTaskCheckpoints db task.taskId

/-- The checkpoint is settled, with epochs left under its contract and
under its approach. -/
def Funded (s : RuntimeState) (checkpointId : String) : Prop :=
  ∃ c contract settlement approach,
    s.checkpoints.find? (fun c => c.checkpointId = checkpointId) = some c ∧
    c.continuation = some contract ∧
    s.settlements.find? (fun st => st.checkpointId = checkpointId) = some settlement ∧
    s.approaches.find? (·.is settlement.scopeKey settlement.taskId settlement.approachKey)
      = some approach ∧
    settlement.consumedEpochs < contract.boundedEpochBudget ∧
    approach.consumedEpochs < approach.budgetLimit

/-- An epoch id that is not empty and has no reservation. -/
def FreshEpoch (s : RuntimeState) (epochId : String) : Prop :=
  epochKey epochId ≠ "" ∧ ∀ r ∈ s.reservations, r.epochId ≠ epochKey epochId

/-- Nothing has raised the task's revision between the continuation and
the completion request. -/
def RequestedNext (db : TaskDb) (scopeKey : String) : Prop :=
  ∃ rows, reviewRows db scopeKey = some rows ∧ rows.2.1.revision = rows.2.2.revision + 1

section Charging

variable {db db' : TaskDb} {scopeKey taskId : String}

theorem listTaskCheckpoints_eq (h : Chronicle db) :
    listTaskCheckpoints db taskId = checkpointsOf db taskId := by
  refine List.Pairwise.insertionSort_eq ?_
  refine (h.ordered.filter _).imp_of_mem fun {c c'} hc hc' hlt => .inl (hlt ?_)
  have htask := of_decide_eq_true (List.mem_filter.mp hc).2
  have htask' := of_decide_eq_true (List.mem_filter.mp hc').2
  exact htask.trans htask'.symm

theorem pendingAndOwner_eq_some {checkpoints : List TaskCheckpointRow}
    {pending owner : TaskCheckpointRow}
    (h : pendingAndOwner checkpoints = some (pending, owner)) :
    (∃ earlier, checkpoints = pending :: owner :: earlier) ∧ pending.disposition = .complete ∧
      owner.disposition = .continue ∧ owner.continuation ≠ none := by
  unfold pendingAndOwner at h
  split at h
  · split at h
    · cases h
    · next hkinds =>
        cases h
        simp only [not_or, not_not] at hkinds
        exact ⟨⟨_, rfl⟩, hkinds⟩
  · cases h

theorem reviewRows_eq_some {task : TaskRecord} {pending owner : TaskCheckpointRow}
    (h : reviewRows db scopeKey = some (task, pending, owner)) :
    db.getForegroundTask scopeKey = some task ∧
      pendingAndOwner (listTaskCheckpoints db task.taskId).reverse = some (pending, owner) := by
  unfold reviewRows at h
  obtain ⟨task', htask, h⟩ := Option.bind_eq_some_iff.mp h
  split at h
  · cases h
  · obtain ⟨rows, hrows, heq⟩ := Option.map_eq_some_iff.mp h
    cases heq
    exact ⟨htask, hrows⟩

/-- The rows of the budget for a checkpoint and for a task. -/
theorem runtime_rows {s : FundedState} (h : Chronicle s.workspace.db)
    (hconsistent : Consistent s.workspace.db) {c : TaskCheckpointRow} {t : TaskRecord}
    (hc : c ∈ s.workspace.db.checkpoints) (ht : t ∈ s.workspace.db.tasks) :
    s.runtime.checkpoints.find? (fun row => row.checkpointId = c.checkpointId)
        = some c.budgetRow ∧
      s.runtime.tasks.find? (fun row => row.taskId = t.taskId ∧ row.scopeKey = t.scopeKey)
        = some t.toTaskRow := by
  have hids : Keyed (·.checkpointId) s.runtime.checkpoints := by
    rw [FundedState.runtime, Keyed, List.map_map]
    exact h.ids
  have htasks : Keyed (·.taskId) s.runtime.tasks := by
    rw [FundedState.runtime, Keyed, List.map_map]
    exact hconsistent.unique.1
  refine ⟨hids.find?_eq_some (List.mem_map_of_mem hc) (decide_eq_true rfl) fun row hrow =>
    of_decide_eq_true hrow, ?_⟩
  exact htasks.find?_eq_some (List.mem_map_of_mem ht) (decide_eq_true ⟨rfl, rfl⟩) fun row hrow =>
    (of_decide_eq_true hrow).1

/-- The row the reservation selects for the continuation before a
completion request. -/
theorem debitRow_owner {s : FundedState} {scope : RuntimeScope} {task : TaskRecord}
    {pending owner : TaskCheckpointRow} {earlier : List TaskCheckpointRow}
    {settlement : SettlementRow} {approach : ApproachRow}
    (h : Chronicle s.workspace.db) (hconsistent : Consistent s.workspace.db)
    (htask : s.workspace.db.getForegroundTask scope.key = some task)
    (hrunning : task.status = .running)
    (hlist : checkpointsOf s.workspace.db task.taskId = earlier ++ [owner, pending])
    (hpending : pending.disposition = .complete) (howner : owner.disposition = .continue)
    (hsettlement : s.runtime.settlements.find? (fun st => st.checkpointId = owner.checkpointId)
      = some settlement)
    (happroach : s.runtime.approaches.find?
      (·.is settlement.scopeKey settlement.taskId settlement.approachKey) = some approach) :
    s.runtime.debitRow scope owner.checkpointId =
      if pending.revision = owner.revision + 1 then
        some (owner.budgetRow, task.toTaskRow, settlement, approach)
      else none := by
  obtain ⟨hmemTask, hscope, -⟩ := mem_of_getForegroundTask htask
  have hmem : ∀ c ∈ [owner, pending], c ∈ s.workspace.db.checkpoints ∧ c.taskId = task.taskId := by
    intro c hc
    have hof : c ∈ checkpointsOf s.workspace.db task.taskId :=
      hlist ▸ List.mem_append_right _ hc
    exact ⟨(List.mem_filter.mp hof).1, of_decide_eq_true (List.mem_filter.mp hof).2⟩
  obtain ⟨hmemOwner, hidOwner⟩ := hmem owner List.mem_cons_self
  obtain ⟨hmemPending, hidPending⟩ := hmem pending (by simp)
  -- the completion request is a later checkpoint than the continuation
  have hlater : owner.revision < pending.revision := by
    have hordered := h.ordered.filter (p := fun c => c.taskId = task.taskId)
    rw [checkpointsOf] at hlist
    rw [hlist, List.pairwise_append] at hordered
    exact List.rel_of_pairwise_cons hordered.2.1 (by simp) (hidOwner.trans hidPending.symm)
  have hdiffer : pending.checkpointId ≠ owner.checkpointId := by
    intro hid
    rw [h.ids.unique hmemPending hmemOwner hid] at hlater
    exact lt_irrefl _ hlater
  have hlatest : task.toTaskRow.latestCheckpointId = some pending.checkpointId := by
    rw [h.latest task hmemTask, hlist]
    simp
  obtain ⟨hownerRow, htaskRow⟩ := runtime_rows h hconsistent hmemOwner hmemTask
  obtain ⟨hpendingRow, -⟩ := runtime_rows h hconsistent hmemPending hmemTask
  have hfound : s.runtime.tasks.find? (fun row => row.taskId = owner.budgetRow.taskId
      ∧ row.scopeKey = scope.key) = some task.toTaskRow := by
    show s.runtime.tasks.find? (fun row => row.taskId = owner.taskId ∧ row.scopeKey = scope.key)
      = _
    rw [hidOwner, ← hscope]
    exact htaskRow
  simp only [RuntimeState.debitRow, hownerRow, hfound, hlatest, hpendingRow, hsettlement,
    happroach, Option.bind_eq_bind, Option.bind_some]
  have hdecides : (owner.budgetRow.disposition = .continue ∧ task.toTaskRow.status = .running ∧
      (pending.checkpointId = owner.budgetRow.checkpointId ∨
        pending.budgetRow.disposition = .complete ∧
          pending.budgetRow.revision = owner.budgetRow.revision + 1)) ↔
      pending.revision = owner.revision + 1 := by
    constructor
    · intro h
      exact (h.2.2.resolve_left hdiffer).2
    · exact fun hnext => ⟨howner, hrunning, .inr ⟨hpending, hnext⟩⟩
  by_cases hnext : pending.revision = owner.revision + 1
  · rw [if_pos (hdecides.mpr hnext), if_pos hnext]
  · rw [if_neg (mt hdecides.mp hnext), if_neg hnext]

end Charging

/-- In any run: once the task is running again with no further checkpoint,
an owner that is funded can be charged for a fresh epoch exactly if the
completion request was made at the revision right after it. -/
theorem budget_owner_charged (log post : List (FundedInput × FundedOutput)) (s s' : FundedState)
    (scope : RuntimeScope) (checkpointId epochId : String) (hrun : FundedRun log s)
    (howner : completionReviewBudgetOwner s.workspace.db scope.key = some checkpointId)
    (hleads : Leads fundedStep (fun _ _ _ => True) log s post s')
    (hresumed : Resumed s.workspace.db s'.workspace.db scope.key)
    (hfunded : Funded s'.runtime checkpointId) (hfresh : FreshEpoch s'.runtime epochId) :
    (∃ charged, s'.runtime.reserveContinuationEpoch scope checkpointId epochId
      = .ok (true, charged)) ↔ RequestedNext s.workspace.db scope.key := by
  obtain ⟨-, hchronicle⟩ := hrun.chronicle
  obtain ⟨hsound', hchronicle'⟩ := FundedRun.chronicle (hrun.append hleads)
  obtain ⟨⟨task₀, pending, owner⟩, hrows, rfl⟩ := Option.map_eq_some_iff.mp howner
  obtain ⟨htask₀, hlast⟩ := reviewRows_eq_some hrows
  obtain ⟨⟨earlier, hlist⟩, hpending, hcontinue, -⟩ := pendingAndOwner_eq_some hlast
  obtain ⟨task, task', htask, htask', hid, hrunning, hsame⟩ := hresumed
  obtain rfl := Option.some.inj (htask.symm.trans htask₀)
  -- the checkpoints are the same ones where the epoch is reserved
  have hlist' : checkpointsOf s'.workspace.db task'.taskId
      = earlier.reverse ++ [owner, pending] := by
    rw [← listTaskCheckpoints_eq hchronicle', hid, hsame, List.reverse_eq_iff.mp hlist]
    simp
  obtain ⟨c, contract, settlement, approach, hc, hcontract, hsettlement, happroach, hbudget,
    hlimit⟩ := hfunded
  have hdebit := debitRow_owner hchronicle' hsound'.consistent htask' hrunning hlist' hpending
    hcontinue hsettlement happroach
  have howned : c = owner.budgetRow := by
    have hmem : owner ∈ s'.workspace.db.checkpoints := by
      have hof : owner ∈ checkpointsOf s'.workspace.db task'.taskId := by
        rw [hlist']
        simp
      exact (List.mem_filter.mp hof).1
    have hrow := (runtime_rows hchronicle' hsound'.consistent hmem
      (mem_of_getForegroundTask htask').1).1
    exact Option.some.inj (hc.symm.trans hrow)
  have hrequired : requiredText epochId 256 = some (epochKey epochId) := if_neg hfresh.1
  have hnone : s'.runtime.reservations.find? (fun r => r.epochId = epochKey epochId) = none :=
    List.find?_eq_none.mpr fun r hr => by simpa using hfresh.2 r hr
  have hnext : RequestedNext s.workspace.db scope.key ↔ pending.revision = owner.revision + 1 := by
    constructor
    · rintro ⟨rows, hrows', hnext⟩
      obtain rfl := Option.some.inj (hrows'.symm.trans hrows)
      exact hnext
    · exact fun hnext => ⟨_, hrows, hnext⟩
  rw [hnext]
  simp only [RuntimeState.reserveContinuationEpoch, hrequired, hnone, hdebit]
  by_cases hconsecutive : pending.revision = owner.revision + 1
  · rw [if_pos hconsecutive]
    dsimp only
    rw [← howned, hcontract]
    dsimp only
    rw [if_neg (by omega)]
    exact ⟨fun _ => hconsecutive, fun _ => ⟨_, rfl⟩⟩
  · rw [if_neg hconsecutive]
    constructor
    · rintro ⟨_, hcharged⟩
      cases hcharged
    · exact fun hnext => absurd hnext hconsecutive

/-! ## A first plan between the two checkpoints -/

/-- One operation of a caller, without interleaving. -/
def alone (op : WorkspaceOp) (id : String) (now : Nat) : List FundedInput :=
  [.workspace (.call 0 "s" op), .workspace (.transact 0 ⟨id, fun _ => ""⟩ now),
    .workspace (.answer 0)]

def collectTerms : ContinuationTerms where
  boundedEpochBudget := 2
  approachKey := "logs"
  generation := 1
  objective := "collect logs"
  operationClass := .material
  targetDescriptor := [("kind", .str "resource")]
  expectedEvidence := ["inventory delta"]
  evidenceCursor := 0

/-- A continuation is settled, then completion is requested at a task
revision. -/
def requested (between : List FundedInput) (revision : Int) : List FundedInput :=
  alone (.start "collect logs" "player" "") "task-1" 1 ++
  alone (.checkpoint 1 .continue "go on" "" [] [] none (some (some collectTerms))) "checkpoint-1" 2 ++
  [.settle ⟨"s", "Bot"⟩ "checkpoint-1" "task-1" "logs" 2 0] ++ between ++
  alone (.checkpoint revision .complete "collected" "" ["counted"] [] none none) "checkpoint-2" 4

/-- The request is rejected. -/
def rejected : List FundedInput := alone .resume "" 5

theorem requested_run (between : List FundedInput) (revision : Int) :
    FundedRun (exec fundedStep .init (requested between revision)).1
      (exec fundedStep .init (requested between revision)).2 :=
  Run.of_inputs _ fun _ _ _ _ => trivial

theorem rejected_leads (pre : List (FundedInput × FundedOutput)) (s : FundedState) :
    Leads fundedStep (fun _ _ _ => True) pre s (exec fundedStep s rejected).1
      (exec fundedStep s rejected).2 :=
  .next _ trivial (.next _ trivial (.next _ trivial (.done _ _)))

theorem budget_owner_charged_next :
    ∃ charged, RuntimeState.reserveContinuationEpoch
      (exec fundedStep (exec fundedStep .init (requested [] 2)).2 rejected).2.runtime
      ⟨"s", "Bot"⟩ "checkpoint-1" "review" = .ok (true, charged) := by
  refine (budget_owner_charged _ _ _ _ ⟨"s", "Bot"⟩ "checkpoint-1" "review" (requested_run [] 2)
    ?_ (rejected_leads _ _) ⟨_, _, rfl, rfl, ?_, ?_, ?_⟩
    ⟨_, _, _, _, rfl, rfl, rfl, rfl, ?_, ?_⟩ ⟨?_, ?_⟩).mpr ⟨_, rfl, ?_⟩
  all_goals decide +kernel

/-- After the continuation the task gets its first plan: the continuation
still owns the rejected request, and is not charged. -/
theorem budget_owner_uncharged :
    let s := (exec fundedStep .init (requested (alone (.updatePlan 0 "plan" []) "plan-1" 3) 3)).2
    let s' := (exec fundedStep s rejected).2
    completionReviewBudgetOwner s.workspace.db "s" = some "checkpoint-1" ∧
    Resumed s.workspace.db s'.workspace.db "s" ∧ Funded s'.runtime "checkpoint-1" ∧
    FreshEpoch s'.runtime "review" ∧
    ∃ unchanged, s'.runtime.reserveContinuationEpoch ⟨"s", "Bot"⟩ "checkpoint-1" "review"
      = .ok (false, unchanged) := by
  intro s s'
  refine ⟨?_, ⟨_, _, rfl, rfl, ?_, ?_, ?_⟩, ⟨_, _, _, _, rfl, rfl, rfl, rfl, ?_, ?_⟩, ⟨?_, ?_⟩,
    _, rfl⟩
  all_goals decide +kernel

end MineBot
