import MineBot.WorkOwnership

/-!
# START and REPLACE_GOAL

What a goal command does to the goal: its text is written into the agent
context and the weld context, the generation is invalidated and the lifecycle
resumed, all before the store is asked for the task. When the store has the
task, its text is written over the other.

The goal that counts is that of the foreground task. `Agrees` says that both
contexts have it; what is left of the step keeps that (`runTurn_agrees`), so it
comes down to whether the store takes the command (`runOp_ok_iff`).
-/

namespace MineBot

namespace GoalCommand

open AgentSession Table TaskDb

inductive LifecycleState where
  | init
  | idle
  | active
  | yielded
  | interrupted
  | resuming
  | recovering
deriving DecidableEq

/-- What a goal command reads and writes of `parts`. -/
structure Parts where
  /-- `context.goal_text` -/
  goalText : String
  /-- `runtime.weld_context.goal_text` -/
  weldGoalText : String
  generation : Int
  lifecycle : LifecycleState
deriving DecidableEq

structure Session where
  parts : Option Parts
  db : TaskDb
  scopeKey : String
  goalActive : Bool
  turnPending : Bool

def Parts.setGoal (parts : Parts) (text : String) : Parts :=
  { parts with goalText := text, weldGoalText := text }

/-- `_resume_if_waiting` -/
def resumeIfWaiting (waiting : Bool) : LifecycleState → LifecycleState
  | .yielded | .interrupted => if waiting then .resuming else .idle
  | state => state

/-- The parts for a new goal, before the store is asked. -/
def prepareParts (partsFactory : String → Parts) (text : String) (s : Session) : Parts :=
  match s.parts with
  | none => partsFactory text
  | some parts =>
      { parts.setGoal text with
        generation := parts.generation + 1
        lifecycle := resumeIfWaiting (s.goalActive || s.turnPending) parts.lifecycle }

/-- `_apply_command` of a goal command, and whether the store refused it. -/
def applyGoal (partsFactory : String → Parts) (draws : Draws) (now : Nat) (command : SessionCommand)
    (s : Session) : Session × Bool :=
  let parts := prepareParts partsFactory command.text s
  match SessionState.commandOp command with
  | none => (s, false)
  | some op =>
      match SessionState.runOp s.db s.scopeKey op draws now with
      | .error _ => ({ s with parts := some parts }, true)
      | .ok db =>
          match db.getTask draws.id with
          | none => ({ s with parts := some parts, db }, false)
          | some task =>
              ({ s with parts := some (parts.setGoal task.goalText), db, goalActive := true
                        turnPending := true }, false)

/-- The operations on the task workspace that a turn and what follows it may
make, beside completing the task. -/
def ofTurn : WorkspaceOp → Bool
  | .pause | .resume | .checkpoint .. | .updatePlan .. => true
  | _ => false

/-- What is left of a step once its command is applied. -/
inductive TurnStep where
  | workspace (op : WorkspaceOp) (hop : ofTurn op = true) (draws : Draws) (now : Nat)
  | lifecycle (state : LifecycleState)
  | invalidateGeneration
  /-- a turn takes the goal of the weld context from the agent context -/
  | refreshWeld
  /-- `complete_current_goal` -/
  | complete (authority : CompletionAuthority) (draws : Draws) (now : Nat)

def TurnStep.apply (s : Session) : TurnStep → Session
  | .workspace op _ draws now =>
      match SessionState.runOp s.db s.scopeKey op draws now with
      | .ok db => { s with db }
      | .error _ => s
  | .lifecycle state => { s with parts := s.parts.map ({ · with lifecycle := state }) }
  | .invalidateGeneration =>
      { s with parts := s.parts.map fun parts => { parts with generation := parts.generation + 1 } }
  | .refreshWeld =>
      { s with parts := s.parts.map fun parts => { parts with weldGoalText := parts.goalText } }
  | .complete authority draws now =>
      match SessionState.runOp s.db s.scopeKey (.complete authority) draws now with
      | .ok db =>
          { s with db, goalActive := false, turnPending := false
                   parts := s.parts.map (·.setGoal "") }
      | .error _ => s

/-- The step that executes a goal command: a refused one raises, after another
the turn runs as far as it gets. -/
def goalStep (partsFactory : String → Parts) (draws : Draws) (now : Nat) (command : SessionCommand)
    (turn : List TurnStep) (s : Session) : Session × Bool :=
  let (s, refused) := applyGoal partsFactory draws now command s
  (if refused then s else turn.foldl TurnStep.apply s, refused)

/-! ## The goal that counts -/

/-- The goal text of the foreground task. -/
def foregroundGoal (db : TaskDb) (scopeKey : String) : Option String :=
  (db.getForegroundTask scopeKey).map (·.goalText)

/-- Both contexts have the goal of the foreground task, and none if there is
no such task. -/
def Agrees (s : Session) : Prop :=
  ∃ parts, s.parts = some parts ∧ parts.goalText = (foregroundGoal s.db s.scopeKey).getD "" ∧
    parts.weldGoalText = (foregroundGoal s.db s.scopeKey).getD ""

/-- A goal command left the goal as it should be. -/
structure LeavesGoal (before after : Session) (refused : Bool) : Prop where
  agrees : Agrees after
  /-- goal texts, generation and lifecycle -/
  untouched : refused = true → after.parts = before.parts

/-- `command.reason or …` -/
def commandSource (command : SessionCommand) : String :=
  if command.reason = "" then
    if command.kind = .start then "user_start" else "user_replace"
  else command.reason

/-- The store takes the command. -/
def Acceptable (s : Session) (command : SessionCommand) : Prop :=
  requiredText command.text 4000 ≠ none ∧ requiredText (commandSource command) 128 ≠ none ∧
    (command.kind = .start → s.db.getForegroundTask s.scopeKey = none)

section Tasks

variable {db db' : TaskDb} {scopeKey : String}

/-- What the operations of a turn leave of the row they meet. -/
theorem rewritten_ofTurn {op : WorkspaceOp} {call : StoreCall} (hop : ofTurn op = true)
    (h : op.issue db scopeKey = .ok (some call)) (draws : Draws) (now : Nat) {t : TaskRecord}
    (ht : t.status.foreground = true) :
    (rewritten draws now call t).scopeKey = t.scopeKey ∧
      (rewritten draws now call t).goalText = t.goalText ∧
      (rewritten draws now call t).status.foreground = true := by
  have hmap : ∀ {status}, status.foreground = true →
      (db.getForegroundTask scopeKey).map (fun task =>
        StoreCall.transitionTask task.taskId task.revision status none) = some call →
      (rewritten draws now call t).scopeKey = t.scopeKey ∧
        (rewritten draws now call t).goalText = t.goalText ∧
        (rewritten draws now call t).status.foreground = true := by
    intro status hstatus hmap
    obtain ⟨_, -, rfl⟩ := Option.map_eq_some_iff.mp hmap
    exact ⟨rfl, rfl, hstatus⟩
  cases op with
  | pause => exact hmap rfl (Except.ok.inj h)
  | resume => exact hmap rfl (Except.ok.inj h)
  | checkpoint expectedTaskRevision disposition =>
      simp only [WorkspaceOp.issue] at h
      split at h
      · cases h
      · repeat' split at h
        · cases h
        · cases h
        · cases h
        · cases h
          refine ⟨rfl, rfl, ?_⟩
          cases disposition <;> rfl
  | updatePlan =>
      simp only [WorkspaceOp.issue] at h
      split at h
      · cases h
      · cases h
        exact ⟨rfl, rfl, ht⟩
  | _ => cases hop

theorem begins_of_ofTurn {op : WorkspaceOp} (h : ofTurn op = true) :
    WorkspaceOp.begins op = false := by
  cases op <;> first | rfl | cases h

/-- A turn leaves the goal of the foreground task. -/
theorem runOp_ofTurn {op : WorkspaceOp} {draws : Draws} {now : Nat} (hc : Consistent db)
    (hop : ofTurn op = true) (h : SessionState.runOp db scopeKey op draws now = .ok db') :
    foregroundGoal db' scopeKey = foregroundGoal db scopeKey := by
  have hc' := runOp_consistent hc h
  cases hissue : op.issue db scopeKey with
  | error e =>
      simp only [SessionState.runOp, hissue] at h
      cases h
  | ok call =>
      cases call with
      | none =>
          simp only [SessionState.runOp, hissue] at h
          cases h
          rfl
      | some call =>
          obtain ⟨t, hread, htask⟩ := issue_work (begins_of_ofTurn hop) hissue
          obtain ⟨reread, hcall⟩ := runOp_transact hissue h
          obtain ⟨p, htasks, -⟩ := transact_rows htask hcall
          obtain ⟨hmem, hscope, hfore⟩ := (currentTask_iff hc.unique).mp hread
          obtain ⟨hscope', hgoal', hfore'⟩ := rewritten_ofTurn hop hissue draws now hfore
          have hrow : (if p t then rewritten draws now call t else t) ∈ db'.tasks := by
            rw [htasks]
            exact mem_updateWhere.mpr ⟨t, hmem, rfl⟩
          have hkept : db'.getForegroundTask scopeKey =
              some (if p t then rewritten draws now call t else t) := by
            refine (currentTask_iff hc'.unique).mpr ⟨hrow, ?_⟩
            split
            · exact ⟨hscope'.trans hscope, hfore'⟩
            · exact ⟨hscope, hfore⟩
          rw [foregroundGoal, foregroundGoal, hread, hkept, Option.map_some, Option.map_some]
          split
          · rw [hgoal']
          · rfl

/-- A completed task is not in the foreground. -/
theorem runOp_complete {authority : CompletionAuthority} {draws : Draws} {now : Nat}
    (hc : Consistent db)
    (h : SessionState.runOp db scopeKey (.complete authority) draws now = .ok db') :
    foregroundGoal db' scopeKey = none := by
  have hc' := runOp_consistent hc h
  rw [foregroundGoal, Option.map_eq_none_iff]
  cases hread : db.getForegroundTask scopeKey with
  | none =>
      simp only [SessionState.runOp, WorkspaceOp.issue, hread] at h
      cases h
      exact hread
  | some t =>
      have hissue : WorkspaceOp.issue db scopeKey (.complete authority) =
          .ok (some (.transitionTask t.taskId t.revision .completed (some authority))) := by
        simp only [WorkspaceOp.issue, hread]
        rfl
      obtain ⟨reread, hcall⟩ := runOp_transact hissue h
      obtain ⟨db₁, hcall, heq⟩ := bind_eq_ok.mp hcall
      cases heq
      have htasks := updateTaskAt_rows hcall
      by_contra hsome
      obtain ⟨t', ht'⟩ := Option.ne_none_iff_exists'.mp hsome
      obtain ⟨hmem', hscope', hfore'⟩ := (currentTask_iff hc'.unique).mp ht'
      rw [htasks] at hmem'
      obtain ⟨r, hr, rfl⟩ := mem_updateWhere.mp hmem'
      by_cases hp : atRevision t.taskId t.revision r = true
      · rw [if_pos hp] at hfore'
        cases hfore'
      · rw [if_neg hp] at hscope' hfore'
        have hsame := (currentTask_iff hc.unique).mpr ⟨hr, hscope', hfore'⟩
        rw [hread] at hsame
        rw [Option.some.inj hsame] at hp
        simp [atRevision] at hp

/-- A task that was inserted is the one that is read, by its id and for its
scope. -/
theorem read_inserted {tasks : List TaskRecord} {t : TaskRecord}
    (hu : TasksUnique db'.tasks) (htasks : db'.tasks = tasks ++ [t])
    (hfore : t.status.foreground = true) :
    db'.getTask t.taskId = some t ∧ db'.getForegroundTask t.scopeKey = some t := by
  have hmem : t ∈ db'.tasks := by simp [htasks]
  constructor
  · obtain ⟨t', ht'⟩ := exists_getTask ⟨t, hmem, rfl⟩
    have hid : t'.taskId = t.taskId := by simpa using List.find?_some ht'
    rw [ht', hu.1.unique (List.mem_of_find?_eq_some ht') hmem hid]
  · exact (currentTask_iff hu).mpr ⟨hmem, rfl, hfore⟩

/-- A foreground task may be inserted where there is none in its scope. -/
theorem tasksUnique_insert {tasks : List TaskRecord} {t : TaskRecord} (hu : TasksUnique tasks)
    (hid : ∀ r ∈ tasks, r.taskId ≠ t.taskId) (hfore : t.status.foreground = true)
    (hnone : ∀ r ∈ tasks, r.scopeKey = t.scopeKey → r.status.foreground = false) :
    TasksUnique (tasks ++ [t]) := by
  refine ⟨hu.1.append_singleton hid, ?_⟩
  have hnew : [t].filter (·.status.foreground) = [t] := by simp [hfore]
  rw [List.filter_append, hnew]
  refine hu.2.append_singleton fun r hr hscope => ?_
  obtain ⟨hr, hopen⟩ := List.mem_filter.mp hr
  rw [hnone r hr hscope] at hopen
  cases hopen

/-- An update that takes the rows it meets from the foreground. -/
theorem foreground_sublist {p : TaskRecord → Bool} {f : TaskRecord → TaskRecord}
    (hf : ∀ t, (f t).status.foreground = false) (tasks : List TaskRecord) :
    ((updateWhere p f tasks).filter (·.status.foreground)).Sublist
      (tasks.filter (·.status.foreground)) := by
  induction tasks with
  | nil => exact .slnil
  | cons t tasks ih =>
      have htail : (tasks.filter (·.status.foreground)).Sublist
          ((t :: tasks).filter (·.status.foreground)) := (List.sublist_cons_self t tasks).filter _
      rw [updateWhere, List.map_cons]
      by_cases hp : p t = true
      · rw [if_pos hp, List.filter_cons_of_neg (by simp [hf])]
        exact ih.trans htail
      · rw [if_neg hp]
        rw [List.filter_cons, List.filter_cons]
        split
        · exact ih.cons_cons t
        · exact ih

/-- Cancelling the foreground tasks of a scope keeps the constraints. -/
theorem tasksUnique_cancelled {tasks : List TaskRecord} (hu : TasksUnique tasks) (scopeKey : String)
    (now : Nat) : TasksUnique (updateWhere (fun t => t.scopeKey = scopeKey ∧ t.status.foreground)
      (cancelled now) tasks) := by
  constructor
  · have hids : (updateWhere (fun t => t.scopeKey = scopeKey ∧ t.status.foreground)
        (cancelled now) tasks).map (·.taskId) = tasks.map (·.taskId) :=
      map_key_updateWhere fun _ => rfl
    rw [Keyed, hids]
    exact hu.1
  · exact hu.2.sublist ((foreground_sublist (fun _ => rfl) tasks).map _)

theorem requireText_ok_iff {field value : String} {n : Nat} :
    (∃ clean, requireText field value n = .ok clean) ↔ requiredText value n ≠ none := by
  unfold requireText
  cases requiredText value n <;> simp

theorem writeTasks_of_unique {tasks : List TaskRecord} (h : TasksUnique tasks) :
    db.writeTasks tasks = .ok { db with tasks } := by
  rw [writeTasks, if_pos h]

theorem createTask_iff {goalText source requestedBy taskId : String} {now : Nat}
    (hu : TasksUnique db.tasks) (hfresh : ∀ t ∈ db.tasks, t.taskId ≠ taskId) :
    (∃ db', db.createTask scopeKey goalText source requestedBy .running taskId now = .ok db') ↔
      requiredText goalText 4000 ≠ none ∧ requiredText source 128 ≠ none ∧
        db.getForegroundTask scopeKey = none := by
  constructor
  · rintro ⟨db', h⟩
    obtain ⟨goal, hgoal, h⟩ := bind_eq_ok.mp h
    obtain ⟨clean, hclean, h⟩ := bind_eq_ok.mp h
    refine ⟨requireText_ok_iff.mp ⟨goal, hgoal⟩, requireText_ok_iff.mp ⟨clean, hclean⟩, ?_⟩
    split at h
    · next hwrite =>
        obtain ⟨hunique, -⟩ := writeTasks_ok hwrite
        by_contra hsome
        obtain ⟨t, ht⟩ := Option.ne_none_iff_exists'.mp hsome
        obtain ⟨hmem, hscope, hfore⟩ := (currentTask_iff hu).mp ht
        have hsame := hunique.2.unique (List.mem_filter.mpr ⟨List.mem_append_left _ hmem, hfore⟩)
          (List.mem_filter.mpr ⟨List.mem_append_right _ (List.mem_singleton_self _), rfl⟩) hscope
        exact hfresh t hmem (congrArg (fun t : TaskRecord => t.taskId) hsame)
    · cases h
  · rintro ⟨htext, hsource, hnone⟩
    obtain ⟨goal, hgoal⟩ : ∃ goal, requireText "goal_text" goalText 4000 = .ok goal :=
      requireText_ok_iff.mpr htext
    obtain ⟨clean, hclean⟩ : ∃ clean, requireText "source" source 128 = .ok clean :=
      requireText_ok_iff.mpr hsource
    have hopen : ∀ r ∈ db.tasks, r.scopeKey = scopeKey → r.status.foreground = false := by
      intro r hr hscope
      by_contra hfore
      have hread := (currentTask_iff hu).mpr ⟨hr, hscope, by simpa using hfore⟩
      rw [hnone] at hread
      cases hread
    have hunique : TasksUnique
        (db.tasks ++ [newTask scopeKey goal requestedBy .running taskId now clean]) :=
      tasksUnique_insert hu hfresh rfl hopen
    refine ⟨{ db with tasks := db.tasks ++ [newTask scopeKey goal requestedBy .running taskId now
      clean] }, bind_eq_ok.mpr ⟨goal, hgoal, bind_eq_ok.mpr ⟨clean, hclean, ?_⟩⟩⟩
    rw [writeTasks_of_unique hunique]

theorem createTask_takes {goalText source requestedBy taskId : String} {now : Nat}
    (h : db.createTask scopeKey goalText source requestedBy .running taskId now = .ok db') :
    TasksUnique db'.tasks ∧ ∃ goal clean tasks,
      db'.tasks = tasks ++ [newTask scopeKey goal requestedBy .running taskId now clean] := by
  obtain ⟨goal, -, h⟩ := bind_eq_ok.mp h
  obtain ⟨clean, -, h⟩ := bind_eq_ok.mp h
  split at h
  · next hwrite =>
      cases h
      obtain ⟨hunique, rfl⟩ := writeTasks_ok hwrite
      exact ⟨hunique, goal, clean, db.tasks, rfl⟩
  · cases h

theorem replaceForegroundTask_iff {goalText source requestedBy taskId : String} {now : Nat}
    (hu : TasksUnique db.tasks) (hfresh : ∀ t ∈ db.tasks, t.taskId ≠ taskId) :
    (∃ db', db.replaceForegroundTask scopeKey goalText source requestedBy taskId now = .ok db') ↔
      requiredText goalText 4000 ≠ none ∧ requiredText source 128 ≠ none := by
  constructor
  · rintro ⟨db', h⟩
    obtain ⟨goal, hgoal, h⟩ := bind_eq_ok.mp h
    obtain ⟨db₁, -, h⟩ := bind_eq_ok.mp h
    obtain ⟨clean, hclean, -⟩ := bind_eq_ok.mp h
    exact ⟨requireText_ok_iff.mp ⟨goal, hgoal⟩, requireText_ok_iff.mp ⟨clean, hclean⟩⟩
  · rintro ⟨htext, hsource⟩
    obtain ⟨goal, hgoal⟩ : ∃ goal, requireText "goal_text" goalText 4000 = .ok goal :=
      requireText_ok_iff.mpr htext
    obtain ⟨clean, hclean⟩ : ∃ clean, requireText "source" source 128 = .ok clean :=
      requireText_ok_iff.mpr hsource
    have hcancel := tasksUnique_cancelled hu scopeKey now
    have hunique : TasksUnique (updateWhere (fun t => t.scopeKey = scopeKey ∧ t.status.foreground)
        (cancelled now) db.tasks ++ [newTask scopeKey goal requestedBy .running taskId now clean]) := by
      refine tasksUnique_insert hcancel ?_ rfl fun r hr hscope => ?_
      · intro r hr
        obtain ⟨r₀, hr₀, rfl⟩ := mem_updateWhere.mp hr
        have hid : r₀.taskId ≠ taskId := hfresh r₀ hr₀
        split <;> exact hid
      · obtain ⟨r₀, -, rfl⟩ := mem_updateWhere.mp hr
        split
        · rfl
        · next hno =>
            rw [if_neg hno] at hscope
            have hopen : ¬ (r₀.scopeKey = scopeKey ∧ r₀.status.foreground = true) := by simpa using hno
            simpa using fun hfore => hopen ⟨hscope, hfore⟩
    exact ⟨_, bind_eq_ok.mpr ⟨goal, hgoal, bind_eq_ok.mpr ⟨_, writeTasks_of_unique hcancel,
      bind_eq_ok.mpr ⟨clean, hclean, writeTasks_of_unique hunique⟩⟩⟩⟩

theorem replaceForegroundTask_takes {goalText source requestedBy taskId : String} {now : Nat}
    (h : db.replaceForegroundTask scopeKey goalText source requestedBy taskId now = .ok db') :
    TasksUnique db'.tasks ∧ ∃ goal clean tasks,
      db'.tasks = tasks ++ [newTask scopeKey goal requestedBy .running taskId now clean] := by
  obtain ⟨goal, -, h⟩ := bind_eq_ok.mp h
  obtain ⟨db₁, -, h⟩ := bind_eq_ok.mp h
  obtain ⟨clean, -, h⟩ := bind_eq_ok.mp h
  obtain ⟨hunique, rfl⟩ := writeTasks_ok h
  exact ⟨hunique, goal, clean, db₁.tasks, rfl⟩

theorem runOp_start_eq (goalText source requestedBy : String) (draws : Draws) (now : Nat) :
    SessionState.runOp db scopeKey (.start goalText source requestedBy) draws now =
      db.createTask scopeKey goalText source requestedBy .running draws.id now := by
  simp only [SessionState.runOp, WorkspaceOp.issue, StoreCall.transact]
  cases db.createTask scopeKey goalText source requestedBy .running draws.id now <;> rfl

theorem runOp_replace_eq (goalText source requestedBy : String) (draws : Draws) (now : Nat) :
    SessionState.runOp db scopeKey (.replace goalText source requestedBy) draws now =
      db.replaceForegroundTask scopeKey goalText source requestedBy draws.id now := by
  simp only [SessionState.runOp, WorkspaceOp.issue, StoreCall.transact]
  cases db.replaceForegroundTask scopeKey goalText source requestedBy draws.id now <;> rfl

variable {s : Session} {command : SessionCommand} {op : WorkspaceOp} {draws : Draws} {now : Nat}

/-- The store takes a goal command just when it is acceptable. -/
theorem runOp_ok_iff (hc : Consistent s.db) (hfresh : ∀ t ∈ s.db.tasks, t.taskId ≠ draws.id)
    (hkind : command.kind = .start ∨ command.kind = .replaceGoal)
    (hop : SessionState.commandOp command = some op) :
    (∃ db', SessionState.runOp s.db s.scopeKey op draws now = .ok db') ↔ Acceptable s command := by
  rcases hkind with hkind | hkind
  · rw [SessionState.commandOp, hkind] at hop
    cases hop
    rw [runOp_start_eq, createTask_iff hc.unique hfresh, Acceptable, commandSource, if_pos hkind]
    simp [hkind]
  · rw [SessionState.commandOp, hkind] at hop
    cases hop
    have hstart : command.kind ≠ .start := by simp [hkind]
    rw [runOp_replace_eq, replaceForegroundTask_iff hc.unique hfresh, Acceptable, commandSource,
      if_neg hstart]
    simp [hstart]

/-- A task the store took is the foreground task. -/
theorem runOp_ok (hkind : command.kind = .start ∨ command.kind = .replaceGoal)
    (hop : SessionState.commandOp command = some op)
    (h : SessionState.runOp s.db s.scopeKey op draws now = .ok db') :
    ∃ t, db'.getTask draws.id = some t ∧ db'.getForegroundTask s.scopeKey = some t := by
  rcases hkind with hkind | hkind
  · rw [SessionState.commandOp, hkind] at hop
    cases hop
    rw [runOp_start_eq] at h
    obtain ⟨hunique, goal, clean, tasks, htasks⟩ := createTask_takes h
    exact ⟨_, read_inserted hunique htasks rfl⟩
  · rw [SessionState.commandOp, hkind] at hop
    cases hop
    rw [runOp_replace_eq] at h
    obtain ⟨hunique, goal, clean, tasks, htasks⟩ := replaceForegroundTask_takes h
    exact ⟨_, read_inserted hunique htasks rfl⟩

end Tasks

/-! ## A step -/

section Steps

variable {s : Session} {command : SessionCommand} {draws : Draws} {now : Nat}
  {partsFactory : String → Parts}

theorem Agrees.setGoal (parts : Parts) (h : s.parts = some (parts.setGoal
    ((foregroundGoal s.db s.scopeKey).getD ""))) : Agrees s := ⟨_, h, rfl, rfl⟩

/-- What is left of a step keeps both contexts at the goal. -/
theorem TurnStep.apply_agrees (step : TurnStep) (hc : Consistent s.db) (h : Agrees s) :
    Consistent (step.apply s).db ∧ Agrees (step.apply s) := by
  obtain ⟨parts, hparts, hgoal, hweld⟩ := h
  cases step with
  | workspace op hop draws now =>
      unfold TurnStep.apply
      dsimp only
      cases hrun : SessionState.runOp s.db s.scopeKey op draws now with
      | error e => exact ⟨hc, parts, hparts, hgoal, hweld⟩
      | ok db =>
          have hkept := runOp_ofTurn hc hop hrun
          refine ⟨runOp_consistent hc hrun, parts, hparts, ?_, ?_⟩
          · rw [hkept]
            exact hgoal
          · rw [hkept]
            exact hweld
  | lifecycle state =>
      exact ⟨hc, { parts with lifecycle := state }, by simp [TurnStep.apply, hparts], hgoal, hweld⟩
  | invalidateGeneration =>
      exact ⟨hc, { parts with generation := parts.generation + 1 },
        by simp [TurnStep.apply, hparts], hgoal, hweld⟩
  | refreshWeld =>
      exact ⟨hc, { parts with weldGoalText := parts.goalText }, by simp [TurnStep.apply, hparts],
        hgoal, hgoal⟩
  | complete authority draws now =>
      unfold TurnStep.apply
      dsimp only
      cases hrun : SessionState.runOp s.db s.scopeKey (.complete authority) draws now with
      | error e => exact ⟨hc, parts, hparts, hgoal, hweld⟩
      | ok db =>
          refine ⟨runOp_consistent hc hrun, .setGoal parts ?_⟩
          rw [runOp_complete hc hrun, hparts]
          rfl

theorem runTurn_agrees (turn : List TurnStep) (hc : Consistent s.db) (h : Agrees s) :
    Agrees (turn.foldl TurnStep.apply s) := by
  induction turn generalizing s with
  | nil => exact h
  | cons step turn ih =>
      obtain ⟨hc', h'⟩ := step.apply_agrees hc h
      exact ih hc' h'

theorem commandOp_isSome (hkind : command.kind = .start ∨ command.kind = .replaceGoal) :
    ∃ op, SessionState.commandOp command = some op := by
  rcases hkind with hkind | hkind <;> simp [SessionState.commandOp, hkind]

/-- A command that is taken sets both contexts to the goal of its task. -/
theorem applyGoal_taken (partsFactory : String → Parts) (now : Nat) (hc : Consistent s.db)
    (hfresh : ∀ t ∈ s.db.tasks, t.taskId ≠ draws.id)
    (hkind : command.kind = .start ∨ command.kind = .replaceGoal) (h : Acceptable s command) :
    (applyGoal partsFactory draws now command s).2 = false ∧
      Consistent (applyGoal partsFactory draws now command s).1.db ∧
      Agrees (applyGoal partsFactory draws now command s).1 := by
  obtain ⟨op, hop⟩ := commandOp_isSome hkind
  obtain ⟨db, hrun⟩ : ∃ db, SessionState.runOp s.db s.scopeKey op draws now = .ok db :=
    (runOp_ok_iff hc hfresh hkind hop).mpr h
  obtain ⟨t, hread, hfore⟩ := runOp_ok hkind hop hrun
  unfold applyGoal
  simp only [hop, hrun, hread]
  refine ⟨trivial, runOp_consistent hc hrun, .setGoal (prepareParts partsFactory command.text s) ?_⟩
  rw [foregroundGoal, hfore]
  rfl

/-- A command that is refused is not undone. -/
theorem applyGoal_refused (partsFactory : String → Parts) (now : Nat) (hc : Consistent s.db)
    (hfresh : ∀ t ∈ s.db.tasks, t.taskId ≠ draws.id)
    (hkind : command.kind = .start ∨ command.kind = .replaceGoal) (h : ¬ Acceptable s command) :
    (applyGoal partsFactory draws now command s).2 = true ∧
      (applyGoal partsFactory draws now command s).1.parts =
        some (prepareParts partsFactory command.text s) := by
  obtain ⟨op, hop⟩ := commandOp_isSome hkind
  unfold applyGoal
  simp only [hop]
  cases hrun : SessionState.runOp s.db s.scopeKey op draws now with
  | error e => exact ⟨rfl, rfl⟩
  | ok db => exact absurd ((runOp_ok_iff hc hfresh hkind hop).mp ⟨db, hrun⟩) h

/-- The parts are never what they were before a new goal. -/
theorem prepareParts_ne : some (prepareParts partsFactory command.text s) ≠ s.parts := by
  cases hparts : s.parts with
  | none => simp
  | some parts =>
      intro h
      have hgeneration : (prepareParts partsFactory command.text s).generation = parts.generation :=
        congrArg Parts.generation (Option.some.inj h)
      rw [prepareParts, hparts] at hgeneration
      dsimp only at hgeneration
      omega

end Steps

/-- A step that executes a goal command leaves the goal as it should be if and
only if the store takes the command: its text and source are not blank, and a
START finds no task in the foreground. -/
theorem goalStep_leavesGoal_iff (partsFactory : String → Parts) (draws : Draws) (now : Nat)
    (command : SessionCommand) (turn : List TurnStep) (s : Session) (hc : Consistent s.db)
    (hfresh : ∀ t ∈ s.db.tasks, t.taskId ≠ draws.id)
    (hkind : command.kind = .start ∨ command.kind = .replaceGoal) :
    LeavesGoal s (goalStep partsFactory draws now command turn s).1
      (goalStep partsFactory draws now command turn s).2 ↔ Acceptable s command := by
  constructor
  · intro hleaves
    by_contra hno
    obtain ⟨hrefused, hparts⟩ := applyGoal_refused partsFactory now hc hfresh hkind hno
    have hstep : goalStep partsFactory draws now command turn s =
        applyGoal partsFactory draws now command s := by
      rw [goalStep]
      dsimp only
      rw [hrefused, if_pos rfl, ← hrefused]
    rw [hstep] at hleaves
    exact prepareParts_ne (hparts.symm.trans (hleaves.untouched hrefused))
  · intro hacceptable
    obtain ⟨htaken, hc', hagrees⟩ := applyGoal_taken partsFactory now hc hfresh hkind hacceptable
    rw [goalStep]
    dsimp only
    rw [htaken, if_neg Bool.false_ne_true]
    exact ⟨runTurn_agrees turn hc' hagrees, by simp⟩

/-- A task to dig a shelter is in the foreground. -/
def digging : Session where
  parts := some ⟨"dig a shelter", "dig a shelter", 3, .active⟩
  db := ⟨[newTask "scope" "dig a shelter" "player" .running "task-1" 1 "user_start"], [], [], []⟩
  scopeKey := "scope"
  goalActive := true
  turnPending := false

def freshParts (goal : String) : Parts := ⟨goal, goal, 0, .init⟩

/-- Collecting wood instead is taken, and agrees. -/
theorem wood_replaces :
    LeavesGoal digging
      (goalStep freshParts ⟨"task-2", fun _ => ""⟩ 2 ⟨.replaceGoal, "collect wood", "", "player"⟩ []
        digging).1
      (goalStep freshParts ⟨"task-2", fun _ => ""⟩ 2 ⟨.replaceGoal, "collect wood", "", "player"⟩ []
        digging).2 := by
  have hc : Consistent digging.db := ⟨by decide, by simp [digging, newTask]⟩
  refine (goalStep_leavesGoal_iff freshParts ⟨"task-2", fun _ => ""⟩ 2
    ⟨.replaceGoal, "collect wood", "", "player"⟩ [] digging hc (by decide) (.inr rfl)).mpr ?_
  exact ⟨by decide, by decide, fun h => by cases h⟩

/-- A START beside it is refused, and the contexts have its goal all the
same. -/
theorem wood_refused :
    ¬ LeavesGoal digging
      (goalStep freshParts ⟨"task-2", fun _ => ""⟩ 2 ⟨.start, "collect wood", "", "player"⟩ []
        digging).1
      (goalStep freshParts ⟨"task-2", fun _ => ""⟩ 2 ⟨.start, "collect wood", "", "player"⟩ []
        digging).2 := by
  intro h
  obtain ⟨parts, hparts, hgoal, -⟩ := h.agrees
  cases hparts
  exact absurd hgoal (by decide)

end GoalCommand

end MineBot
