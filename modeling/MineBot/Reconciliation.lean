import MineBot.JavaBodyClient
import MineBot.LedgerSteps
import MineBot.WorkQueue

/-!
# Startup reconciliation

`enqueue_startup_reconciliation`: at process start the queued recovery
and Body-event intents are superseded and one fresh intent is queued that
carries their events together with what the Body reports. Everything
outside the ledger - the Body, the clock, the store's own failures, the
end of the process - answers through `StartupWorld`, so a failure point is
a choice of its answers. What the intent says about state, inventory,
task, checkpoint and terminal is taken as the entries the world gives.
-/

namespace MineBot

open Table JavaBody

/-! ## Events in payloads -/

/-- `int(raw.get(key) or 0)`. -/
def intOrZero : Option Json → Except IntError Int
  | some value => if value.truthy then pyInt value else .ok 0
  | none => .ok 0

section Decoding

variable (pyStr : Json → String)

/-- `str(raw.get(key) or "")`; `pyStr` is `str` of what is no string. -/
def strOrEmpty : Option Json → String
  | some (.str s) => s
  | some value => if value.truthy then pyStr value else ""
  | none => ""

/-- The `Event` a decoded object denotes. -/
def eventFromPayload (raw : JsonObject) : Except IntError Event := do
  let seq ← intOrZero (raw.get? "seq")
  let tick ← intOrZero (raw.get? "tick")
  return {
    seq := seq
    tick := tick
    bot := strOrEmpty pyStr (raw.get? "bot")
    name := strOrEmpty pyStr (raw.get? "name")
    data := match raw.get? "data" with
      | some (.obj data) => data
      | _ => [] }

def asObject? : Json → Option JsonObject
  | .obj fields => some fields
  | _ => none

/-- What `_events_from_reconcile_intents` reads of one payload. -/
def reconcileEvents (payload : JsonObject) : List JsonObject :=
  match payload.get? "events" with
  | some (.arr raws) => raws.filterMap asObject?
  | _ => []

/-- What `_events_from_body_intents` reads of one payload. -/
def bodyIntentEvents (payload : JsonObject) : List JsonObject :=
  ((payload.get? "event").bind asObject?).toList

/-- `_events_from_reconcile_intents`, then `_events_from_body_intents`. -/
def carriedEvents (stale staleBodyEvents : List WorkIntentRow) : Except IntError (List Event) :=
  (stale.flatMap (reconcileEvents ·.payload)
    ++ staleBodyEvents.flatMap (bodyIntentEvents ·.payload)).mapM (eventFromPayload pyStr)

end Decoding

/-- `_event_payload`. -/
def eventPayload (e : Event) : Json :=
  .obj [("seq", .int e.seq), ("tick", .int e.tick), ("bot", .str e.bot), ("name", .str e.name),
    ("data", .obj e.data)]

/-! ## Merging -/

/-- `(event.bot, event.seq, event.name)`. -/
def eventKey (e : Event) : String × Int × String := (e.bot, e.seq, e.name)

/-- The dictionary of `_merge_events`. -/
def mergedEvents (events : List Event) : Dict (String × Int × String) Event :=
  events.foldl (fun merged e => merged.set (eventKey e) e) []

/-- `_merge_events`. -/
def mergeEvents (previous current : List Event) : List Event :=
  ((mergedEvents (previous ++ current)).map Prod.snd).insertionSort fun a b =>
    a.seq < b.seq ∨ a.seq = b.seq ∧ a.name ≤ b.name

/-! ## The world around the call -/

/-- What a step outside the ledger comes to. -/
inductive Reply (α : Type) where
  | answers (a : α)
  | raises
  | dies
deriving DecidableEq

structure StartupWorld where
  /-- getting as far as the `supersede` -/
  starts : Reply Unit
  /-- `body.interrupt`: `ok and accepted` -/
  interrupt : Reply Bool
  /-- the owners `body.event_head` reports; the process ends with the list -/
  heads : List (Reply (Option String))
  /-- `event_pump.read_events` -/
  events : Reply (List Event)
  /-- `body.get_state`: `missing` -/
  state : Reply Bool
  /-- the pages of `_inventory_counts` -/
  inventory : Reply Unit
  /-- the payload's other entries: decision, state, inventory, task,
  checkpoint, terminal -/
  facts : Reply JsonObject
  /-- the transaction of the `enqueue` -/
  enqueue : Reply Unit
  /-- `event_pump.acknowledge_cursor` -/
  acknowledge : Reply Unit
  intentId : String
  supersededAt : Nat
  enqueuedAt : Nat

/-- `_wait_for_owner_release`. -/
def waitForOwnerRelease : Nat → List (Reply (Option String)) → Reply Unit
  | 0, _ => .raises
  | _ + 1, [] => .dies
  | _ + 1, .dies :: _ => .dies
  | _ + 1, .raises :: _ => .raises
  | _ + 1, .answers none :: _ => .answers ()
  | attempts + 1, .answers (some _) :: heads => waitForOwnerRelease attempts heads

/-! ## The call -/

inductive StartupOutcome where
  | returned (intent : WorkIntentRow)
  | failed
  | died

/-- What an interrupted predecessor left of its admission: its budget
owner and its cursor. -/
def priorAdmissionOf (task : TaskRow) (payload : JsonObject) (taskId : Option String) :
    Except IntError (Option (Json × Int)) :=
  match payload.get? "admission_task_id" with
  | some owner => if owner.pyEq (.str task.taskId) then owned else .ok none
  | none => owned
where
  owned : Except IntError (Option (Json × Int)) :=
    if taskId ≠ none ∧ taskId ≠ some task.taskId then .ok none
    else
      let cursor := (payload.get? "admission_evidence_cursor").getD
        ((payload.get? "evidence_cursor").getD .null)
      match payload.get? "budget_checkpoint_id" with
      | some owner => if cursor = .null then .ok none
          else (pyInt cursor).map fun n => some (owner, n)
      | none => .ok none

/-- The loop over `(*orphaned_intents, *stale)`. -/
def startupAdmissions (task : Option TaskRow) (priors : List (JsonObject × Option String)) :
    Except IntError (List (Json × Int)) :=
  match task with
  | none => .ok []
  | some task => do
      let found ← priors.mapM fun (payload, taskId) => priorAdmissionOf task payload taskId
      return found.filterMap id

/-- Building `{owner for owner, _ in admissions}` raises on a list or an
object. -/
def unhashableOwner (admissions : List (Json × Int)) : Bool :=
  admissions.any fun (owner, _) => match owner with
    | .arr _ | .obj _ => true
    | _ => false

/-- `len({owner for owner, _ in admissions}) > 1`. -/
def conflictingOwners (admissions : List (Json × Int)) : Bool :=
  admissions.any fun (owner, _) => admissions.any fun (other, _) => !owner.pyEq other

/-- `WorkIntentKind.value`. -/
def WorkIntentKind.value : WorkIntentKind → String
  | .start => "start"
  | .pause => "pause"
  | .«continue» => "continue"
  | .cancel => "cancel"
  | .replaceGoal => "replace_goal"
  | .message => "message"
  | .quit => "quit"
  | .bodyEvent => "body_event"
  | .reflexFact => "reflex_fact"
  | .recoveryReconcile => "recovery_reconcile"
  | .completionReview => "completion_review"
  | .taskBoundary => "task_boundary"
  | .taskContinue => "task_continue"
  | .maintenance => "maintenance"

/-- `WorkIntentState.value`. -/
def WorkIntentState.value : WorkIntentState → String
  | .queued => "queued"
  | .leased => "leased"
  | .completed => "completed"
  | .superseded => "superseded"
  | .failed => "failed"

/-- `_orphan_payload`. -/
def orphanPayload (i : WorkIntent) : Json :=
  .obj [("intent_id", .str i.intentId), ("kind", .str i.kind.value),
    ("task_id", Json.ofString? i.taskId),
    ("generation", match i.generation with
      | some n => .int n
      | none => .null),
    ("attempt_count", .int i.attemptCount), ("state_at_restart", .str i.state.value)]

/-- The entries of the admission an interrupted predecessor left. -/
def admissionPayload (task : Option TaskRow) : List (Json × Int) → JsonObject
  | [] => []
  | (owner, cursor) :: admissions =>
      [("budget_checkpoint_id", owner),
        ("evidence_cursor", .int (admissions.foldl (fun n a => min n a.2) cursor)),
        ("admission_task_id", Json.ofString? (task.map (·.taskId)))]

/-- The payload of the new intent. -/
def startupPayload (task : Option TaskRow) (orphans : List WorkIntent)
    (admissions : List (Json × Int)) (events : List Event) (facts : JsonObject) : JsonObject :=
  ((facts.update [("events", .arr (events.map eventPayload)),
      ("event_count", .int events.length),
      ("orphaned_intents", .arr (orphans.map orphanPayload))]).update
    (admissionPayload task admissions))

def startupDraft (task : Option TaskRow) (payload : JsonObject) :
    RuntimeState.WorkIntentDraft where
  kind := .recoveryReconcile
  source := "startup_reconcile"
  priority := WorkIntentKind.recoveryReconcile.workIntentPriority
  payload := payload
  dedupeKey := none
  taskId := task.map (·.taskId)
  generation := none

section Call

variable (pyStr : Json → String) (s : RuntimeState) (scope : RuntimeScope)
variable (orphans : List WorkIntent) (w : StartupWorld)

/-- The queued intents of a kind. -/
def queuedOf (kind : WorkIntentKind) : List WorkIntentRow :=
  s.listQueuedWorkIntents scope (some kind)

/-- The ledger after the `supersede` of the stale intents. -/
def supersedeStale : RuntimeState :=
  if queuedOf s scope .recoveryReconcile = [] ∧ queuedOf s scope .bodyEvent = []
      ∧ queuedOf s scope .taskContinue = [] then s
  else (s.supersedeQueuedWorkIntents scope [.recoveryReconcile, .bodyEvent, .taskContinue]
    "startup_reconcile_refreshed" w.supersededAt).2

/-- The last part: the new intent is queued, then the cursor is
acknowledged. -/
def enqueueReconciliation (s₁ : RuntimeState) (admissions : List (Json × Int))
    (events : List Event) (facts : JsonObject) : StartupOutcome × RuntimeState :=
  let task := s₁.foregroundTask scope
  match w.enqueue with
  | .dies => (.died, s₁)
  | .raises => (.failed, s₁)
  | .answers () =>
      match s₁.enqueueWorkIntent scope
          (startupDraft task (startupPayload task orphans admissions events facts)) none
          w.intentId w.enqueuedAt with
      | .error _ => (.failed, s₁)
      | .ok (intent, s₂) =>
          match w.acknowledge with
          | .dies => (.died, s₂)
          | .raises => (.failed, s₂)
          | .answers () => (.returned intent, s₂)

/-- The middle part: the Body is interrupted and read. -/
def refreshAndEnqueue (s₁ : RuntimeState) (admissions : List (Json × Int))
    (carried : List Event) : StartupOutcome × RuntimeState :=
  match w.interrupt with
  | .dies => (.died, s₁)
  | .raises | .answers false => (.failed, s₁)
  | .answers true =>
  match waitForOwnerRelease 50 w.heads with
  | .dies => (.died, s₁)
  | .raises => (.failed, s₁)
  | .answers () =>
  match w.events with
  | .dies => (.died, s₁)
  | .raises => (.failed, s₁)
  | .answers fresh =>
  match w.state with
  | .dies => (.died, s₁)
  | .raises => (.failed, s₁)
  | .answers missing =>
  match (if missing then .answers () else w.inventory) with
  | .dies => (.died, s₁)
  | .raises => (.failed, s₁)
  | .answers () =>
  match w.facts with
  | .dies => (.died, s₁)
  | .raises => (.failed, s₁)
  | .answers facts =>
      enqueueReconciliation scope orphans w s₁ admissions (mergeEvents carried fresh) facts

/-- `enqueue_startup_reconciliation`. -/
def enqueueStartupReconciliation : StartupOutcome × RuntimeState :=
  let stale := queuedOf s scope .recoveryReconcile
  match startupAdmissions (s.foregroundTask scope)
      (orphans.map (fun i => (i.payload, i.taskId)) ++ stale.map fun r => (r.payload, r.taskId)) with
  | .error _ => (.failed, s)
  | .ok admissions =>
      if unhashableOwner admissions then (.failed, s)
      else if conflictingOwners admissions then
        match w.interrupt with
        | .dies => (.died, s)
        | _ => (.failed, s)
      else match carriedEvents pyStr stale (queuedOf s scope .bodyEvent) with
      | .error _ => (.failed, s)
      | .ok carried =>
          match w.starts with
          | .dies => (.died, s)
          | .raises => (.failed, s)
          | .answers () =>
              refreshAndEnqueue scope orphans w (supersedeStale s scope w) admissions carried

end Call

/-! ## What the queued intents carry -/

section Carried

variable {pyStr : Json → String} {s s' : RuntimeState} {scope : RuntimeScope} {e : Event}

/-- The payload carries the event. -/
def CarriedIn (pyStr : Json → String) (kind : WorkIntentKind) (payload : JsonObject) (e : Event) :
    Prop :=
  ∃ raw, eventFromPayload pyStr raw = .ok e
    ∧ (kind = .recoveryReconcile ∧ raw ∈ reconcileEvents payload
      ∨ kind = .bodyEvent ∧ raw ∈ bodyIntentEvents payload)

/-- A queued recovery or Body-event intent carries the event. -/
def Carries (pyStr : Json → String) (s : RuntimeState) (scope : RuntimeScope) (e : Event) :
    Prop :=
  ∃ r ∈ s.workIntents, r.scopeKey = scope.key ∧ r.state = .queued
    ∧ CarriedIn pyStr r.kind r.payload e

theorem CarriedIn.kind {kind : WorkIntentKind} {payload : JsonObject}
    (h : CarriedIn pyStr kind payload e) : kind = .recoveryReconcile ∨ kind = .bodyEvent := by
  obtain ⟨-, -, ⟨hkind, -⟩ | ⟨hkind, -⟩⟩ := h
  · exact .inl hkind
  · exact .inr hkind

theorem mem_queuedOf {kind : WorkIntentKind} {r : WorkIntentRow} :
    r ∈ queuedOf s scope kind
      ↔ r ∈ s.workIntents ∧ r.scopeKey = scope.key ∧ r.state = .queued ∧ r.kind = kind := by
  simp [queuedOf, RuntimeState.listQueuedWorkIntents, List.mem_insertionSort,
    WorkIntentRow.ofKind]

theorem mapM_ok {α β ε : Type} {f : α → Except ε β} {xs : List α} {ys : List β}
    (h : xs.mapM f = .ok ys) (y : β) : y ∈ ys ↔ ∃ x ∈ xs, f x = .ok y := by
  induction xs generalizing ys with
  | nil =>
      obtain rfl := Except.ok.inj h
      simp
  | cons x xs ih =>
      rw [List.mapM_cons] at h
      simp only [bind, Except.bind] at h
      split at h
      · cases h
      · next z hz =>
          split at h
          · cases h
          · next zs hzs =>
              obtain rfl := Except.ok.inj h
              rw [List.mem_cons, ih hzs]
              constructor
              · rintro (rfl | ⟨x', hx', hy⟩)
                · exact ⟨x, List.mem_cons_self, hz⟩
                · exact ⟨x', List.mem_cons_of_mem _ hx', hy⟩
              · rintro ⟨x', hx', hy⟩
                rcases List.mem_cons.mp hx' with rfl | hx'
                · exact .inl (Except.ok.inj (hy.symm.trans hz))
                · exact .inr ⟨x', hx', hy⟩

/-- What the call reads is what the intents carry. -/
theorem mem_carriedEvents {carried : List Event}
    (h : carriedEvents pyStr (queuedOf s scope .recoveryReconcile) (queuedOf s scope .bodyEvent)
      = .ok carried) : e ∈ carried ↔ Carries pyStr s scope e := by
  rw [mapM_ok h]
  constructor
  · rintro ⟨raw, hraw, hread⟩
    rcases List.mem_append.mp hraw with hraw | hraw
    · obtain ⟨r, hr, hraw⟩ := List.mem_flatMap.mp hraw
      obtain ⟨hmem, hscope, hstate, hkind⟩ := mem_queuedOf.mp hr
      exact ⟨r, hmem, hscope, hstate, raw, hread, .inl ⟨hkind, hraw⟩⟩
    · obtain ⟨r, hr, hraw⟩ := List.mem_flatMap.mp hraw
      obtain ⟨hmem, hscope, hstate, hkind⟩ := mem_queuedOf.mp hr
      exact ⟨r, hmem, hscope, hstate, raw, hread, .inr ⟨hkind, hraw⟩⟩
  · rintro ⟨r, hmem, hscope, hstate, raw, hread, ⟨hkind, hraw⟩ | ⟨hkind, hraw⟩⟩
    · exact ⟨raw, List.mem_append_left _ (List.mem_flatMap.mpr
        ⟨r, mem_queuedOf.mpr ⟨hmem, hscope, hstate, hkind⟩, hraw⟩), hread⟩
    · exact ⟨raw, List.mem_append_right _ (List.mem_flatMap.mpr
        ⟨r, mem_queuedOf.mpr ⟨hmem, hscope, hstate, hkind⟩, hraw⟩), hread⟩

/-- The next process start keeps what is queued. -/
theorem carries_init {leaseOwner : String} {now later : Nat} {report : List WorkIntent × Nat}
    (h : PersistentWorkIntentQueue.init ⟨scope, leaseOwner⟩ s now later = .ok (report, s')) :
    Carries pyStr s' scope e ↔ Carries pyStr s scope e := by
  simp only [PersistentWorkIntentQueue.init, abandon_eq, bind, Except.bind, pure, Except.pure] at h
  cases h
  simp only [Carries, RuntimeState.supersedeQueuedWorkIntents, updateWhere, List.map_map,
    List.mem_map, Function.comp_apply]
  constructor
  · rintro ⟨-, ⟨r, hr, rfl⟩, hspec⟩
    refine ⟨r, hr, ?_⟩
    revert hspec
    by_cases hleased : r.scopeKey = scope.key ∧ r.state = .leased
    · simp [hleased, WorkIntentRow.finish]
    · by_cases hquit : r.scopeKey = scope.key ∧ r.state = .queued ∧ r.kind = .quit
      · simp [hquit, WorkIntentRow.supersede]
      · simp [hleased, hquit]
  · rintro ⟨r, hr, hscope, hstate, hcarried⟩
    refine ⟨_, ⟨r, hr, rfl⟩, ?_⟩
    have hkind : r.kind ≠ .quit := by
      rcases hcarried.kind with hkind | hkind <;> rw [hkind] <;> decide
    simp [hstate, hkind, hscope, hcarried]

/-- Nothing is carried once the stale intents are superseded. -/
theorem not_carries_supersedeStale (w : StartupWorld) :
    ¬ Carries pyStr (supersedeStale s scope w) scope e := by
  unfold supersedeStale
  split
  · next hnone =>
      rintro ⟨r, hr, hscope, hstate, hcarried⟩
      rcases hcarried.kind with hkind | hkind
      · have hqueued := mem_queuedOf.mpr ⟨hr, hscope, hstate, hkind⟩
        rw [hnone.1] at hqueued
        cases hqueued
      · have hqueued := mem_queuedOf.mpr ⟨hr, hscope, hstate, hkind⟩
        rw [hnone.2.1] at hqueued
        cases hqueued
  · rintro ⟨r', hr', hscope, hstate, hcarried⟩
    obtain ⟨r, hr, rfl⟩ := mem_updateWhere.mp hr'
    split at hstate
    · cases hstate
    · next hp =>
        rw [if_neg hp] at hscope hcarried
        refine hp (decide_eq_true ⟨hscope, hstate, ?_⟩)
        rcases hcarried.kind with hkind | hkind <;> rw [hkind] <;> decide

theorem eventFromPayload_eventPayload (pyStr : Json → String) (e : Event) :
    ∃ raw, eventPayload e = .obj raw ∧ eventFromPayload pyStr raw = .ok e := by
  refine ⟨_, rfl, ?_⟩
  have hint : ∀ n : Int, intOrZero (some (.int n)) = .ok n := by
    intro n
    simp only [intOrZero, Json.truthy, decide_eq_true_eq, pyInt]
    split
    · rfl
    · next hzero => rw [Decidable.not_not.mp hzero]
  simp only [eventFromPayload, Dict.get?, String.reduceEq, if_true, if_false, hint, strOrEmpty,
    bind, Except.bind]
  rfl

/-- The events of the new intent are the merged ones. -/
theorem mem_startupPayload {task : Option TaskRow} {orphans : List WorkIntent}
    {admissions : List (Json × Int)} {events : List Event} {facts : JsonObject} :
    CarriedIn pyStr .recoveryReconcile (startupPayload task orphans admissions events facts) e
      ↔ e ∈ events := by
  have hevents : (startupPayload task orphans admissions events facts).get? "events"
      = some (.arr (events.map eventPayload)) := by
    have hadmissions : (admissionPayload task admissions).get? "events" = none := by
      cases admissions <;> rfl
    rw [startupPayload, Dict.get?_update_of_get?_none _ _ hadmissions, Dict.update_cons,
      Dict.get?_update_of_get?_none _ _ rfl, Dict.get?_set_self]
  have hraws : reconcileEvents (startupPayload task orphans admissions events facts)
      = (events.map eventPayload).filterMap asObject? := by
    rw [reconcileEvents, hevents]
  simp only [CarriedIn, hraws, List.mem_filterMap, List.mem_map, true_and, reduceCtorEq, false_and,
    or_false]
  constructor
  · rintro ⟨raw, hread, -, ⟨e', he', rfl⟩, hraw⟩
    obtain ⟨raw', hraw', hread'⟩ := eventFromPayload_eventPayload pyStr e'
    rw [hraw'] at hraw
    obtain rfl := Option.some.inj hraw
    obtain rfl := Except.ok.inj (hread.symm.trans hread')
    exact he'
  · intro he
    obtain ⟨raw, hraw, hread⟩ := eventFromPayload_eventPayload pyStr e
    exact ⟨raw, hread, _, ⟨e, he, rfl⟩, by rw [hraw]; rfl⟩

end Carried

/-! ## What merging keeps -/

/-- The last of the events under its key is this one. -/
def LastOfKey (events : List Event) (e : Event) : Prop :=
  (events.filter fun e' => eventKey e' = eventKey e).getLast? = some e

theorem mergedEvents_spec (events : List Event) :
    ((mergedEvents events).map Prod.fst).Nodup
      ∧ ∀ k, (mergedEvents events).get? k
        = (events.filter fun e => eventKey e = k).getLast? := by
  induction events using List.reverseRecOn with
  | nil => exact ⟨List.nodup_nil, fun _ => rfl⟩
  | append_singleton events e ih =>
      obtain ⟨hkeys, hget⟩ := ih
      have hsnoc : mergedEvents (events ++ [e]) = (mergedEvents events).set (eventKey e) e := by
        simp [mergedEvents]
      rw [hsnoc]
      refine ⟨Dict.nodup_set hkeys _ _, fun k => ?_⟩
      rw [Dict.get?_set, hget, List.filter_append]
      by_cases hk : k = eventKey e
      · simp [hk]
      · simp [hk, Ne.symm hk]

/-- **What merging keeps**: of the events under one key, the last. -/
theorem mem_mergeEvents {previous current : List Event} {e : Event} :
    e ∈ mergeEvents previous current ↔ LastOfKey (previous ++ current) e := by
  obtain ⟨hkeys, hget⟩ := mergedEvents_spec (previous ++ current)
  rw [mergeEvents, List.mem_insertionSort, List.mem_map]
  constructor
  · rintro ⟨⟨k, e'⟩, hmem, rfl⟩
    have hlast := (Dict.mem_iff_get? hkeys).mp hmem
    rw [hget] at hlast
    have hkey := (List.mem_filter.mp (List.mem_of_getLast? hlast)).2
    rw [LastOfKey, of_decide_eq_true hkey]
    exact hlast
  · intro hlast
    exact ⟨(eventKey e, e), (Dict.mem_iff_get? hkeys).mpr ((hget _).trans hlast), rfl⟩

/-! ## When nothing is lost -/

section Startup

variable {pyStr : Json → String} {s s₁ : RuntimeState} {scope : RuntimeScope}
variable {orphans : List WorkIntent} {w : StartupWorld}

theorem mem_of_foregroundTask {t : TaskRow} (h : s.foregroundTask scope = some t) :
    t ∈ s.tasks := by
  have hfold : ∀ (f : Option TaskRow → TaskRow → Option TaskRow),
      (∀ b t, f b t = b ∨ f b t = some t) →
      ∀ (ts : List TaskRow) (best : Option TaskRow) (t : TaskRow),
        ts.foldl f best = some t → best = some t ∨ t ∈ ts := by
    intro f hf ts
    induction ts with
    | nil => exact fun best t h => .inl h
    | cons x ts ih =>
        intro best t h
        rcases ih (f best x) t h with hstart | hmem
        · rcases hf best x with heq | heq
          · exact .inl (heq ▸ hstart)
          · obtain rfl := Option.some.inj (heq.symm.trans hstart)
            exact .inr List.mem_cons_self
        · exact .inr (List.mem_cons_of_mem _ hmem)
  have hchoice : ∀ (b : Option TaskRow) (t : TaskRow), (match b with
      | none => some t
      | some b =>
          if b.updatedAt < t.updatedAt ∨ b.updatedAt = t.updatedAt ∧ b.taskId < t.taskId
          then some t else some b) = b
      ∨ (match b with
        | none => some t
        | some b =>
            if b.updatedAt < t.updatedAt ∨ b.updatedAt = t.updatedAt ∧ b.taskId < t.taskId
            then some t else some b) = some t := by
    intro b t
    cases b with
    | none => exact .inr rfl
    | some b =>
        dsimp only
        split
        · exact .inr rfl
        · exact .inl rfl
  rcases hfold _ hchoice _ none t h with hnone | hmem
  · cases hnone
  · exact (List.mem_filter.mp hmem).1

/-- Queueing the new intent comes down to its id being new. -/
theorem enqueue_startup (s : RuntimeState) (scope : RuntimeScope) (payload : JsonObject)
    (intentId : String) (now : Nat) :
    (∀ r ∈ s.workIntents, r.intentId ≠ intentId) ∧ (∃ row : WorkIntentRow,
        s.enqueueWorkIntent scope (startupDraft (s.foregroundTask scope) payload) none intentId now
          = .ok (row, s.insert row) ∧ row.scopeKey = scope.key ∧ row.state = .queued
        ∧ row.kind = .recoveryReconcile ∧ row.payload = payload)
      ∨ ¬ (∀ r ∈ s.workIntents, r.intentId ≠ intentId)
        ∧ ∃ e, s.enqueueWorkIntent scope (startupDraft (s.foregroundTask scope) payload) none
          intentId now = .error e := by
  have hdedupe : RuntimeState.normalizedDedupe none = none := by decide
  have hsource : requiredText "startup_reconcile" 128 = some "startup_reconcile" := by decide
  have hpriority : fitsInt64 WorkIntentKind.recoveryReconcile.workIntentPriority = true := by
    decide
  have hcall : s.enqueueWorkIntent scope (startupDraft (s.foregroundTask scope) payload) none
      intentId now
      = (let row := RuntimeState.draftRow scope intentId
          (startupDraft (s.foregroundTask scope) payload) (utcNow now) (utcNow now)
        if s.insertable row then .ok (row, s.insert row) else .error .insertFailed) := by
    simp only [RuntimeState.enqueueWorkIntent, startupDraft, hdedupe, hsource, hpriority]
    rfl
  have hins : s.insertable (RuntimeState.draftRow scope intentId
      (startupDraft (s.foregroundTask scope) payload) (utcNow now) (utcNow now)) = true
      ↔ ∀ r ∈ s.workIntents, r.intentId ≠ intentId := by
    rw [RuntimeState.insertable, Bool.and_eq_true, Bool.and_eq_true]
    constructor
    · rintro ⟨⟨hids, -⟩, -⟩ r hr
      exact of_decide_eq_true (List.all_eq_true.mp hids r hr)
    · intro hids
      refine ⟨⟨List.all_eq_true.mpr fun r hr => decide_eq_true (hids r hr), rfl⟩, ?_⟩
      simp only [RuntimeState.draftRow, startupDraft]
      cases h : s.foregroundTask scope with
      | none => rfl
      | some t => exact List.any_eq_true.mpr ⟨t, mem_of_foregroundTask h, by simp⟩
  rw [hcall]
  by_cases hfresh : ∀ r ∈ s.workIntents, r.intentId ≠ intentId
  · refine .inl ⟨hfresh, RuntimeState.draftRow scope intentId
      (startupDraft (s.foregroundTask scope) payload) (utcNow now) (utcNow now), ?_, rfl, rfl, rfl,
      rfl⟩
    dsimp only
    rw [if_pos (hins.mpr hfresh)]
  · refine .inr ⟨hfresh, .insertFailed, ?_⟩
    dsimp only
    rw [if_neg fun h => hfresh (hins.mp h)]

/-- The world answers everything up to the new intent's insertion. -/
structure Refreshes (s : RuntimeState) (w : StartupWorld) (fresh : List Event) : Prop where
  interrupt : w.interrupt = .answers true
  released : waitForOwnerRelease 50 w.heads = .answers ()
  events : w.events = .answers fresh
  state : ∃ missing, w.state = .answers missing ∧ (missing = false → w.inventory = .answers ())
  facts : ∃ facts, w.facts = .answers facts
  enqueue : w.enqueue = .answers ()
  newId : ∀ r ∈ s.workIntents, r.intentId ≠ w.intentId

/-- The end of a call that has queued its intent. -/
def afterEnqueue (w : StartupWorld) (intent : WorkIntentRow) : StartupOutcome :=
  match w.acknowledge with
  | .dies => .died
  | .raises => .failed
  | .answers () => .returned intent

/-- Past the `supersede` the call queues its intent, or ends without. -/
theorem refreshAndEnqueue_spec (s₁ : RuntimeState) (scope : RuntimeScope)
    (orphans : List WorkIntent) (w : StartupWorld) (admissions : List (Json × Int))
    (carried : List Event) :
    (∃ fresh facts row, Refreshes s₁ w fresh ∧ row.scopeKey = scope.key ∧ row.state = .queued
        ∧ row.kind = .recoveryReconcile
        ∧ row.payload = startupPayload (s₁.foregroundTask scope) orphans admissions
          (mergeEvents carried fresh) facts
        ∧ refreshAndEnqueue scope orphans w s₁ admissions carried
          = (afterEnqueue w row, s₁.insert row))
      ∨ (¬ ∃ fresh, Refreshes s₁ w fresh) ∧ ∃ outcome, (outcome = .failed ∨ outcome = .died)
        ∧ refreshAndEnqueue scope orphans w s₁ admissions carried = (outcome, s₁) := by
  have hends : ∀ {outcome : StartupOutcome},
      refreshAndEnqueue scope orphans w s₁ admissions carried = (outcome, s₁) →
      (outcome = .failed ∨ outcome = .died) → (∀ fresh, ¬ Refreshes s₁ w fresh) →
      (¬ ∃ fresh, Refreshes s₁ w fresh) ∧ ∃ outcome, (outcome = .failed ∨ outcome = .died)
        ∧ refreshAndEnqueue scope orphans w s₁ admissions carried = (outcome, s₁) :=
    fun hcall houtcome hnot => ⟨fun ⟨fresh, hfresh⟩ => hnot fresh hfresh, _, houtcome, hcall⟩
  generalize hcall : refreshAndEnqueue scope orphans w s₁ admissions carried = result at hends ⊢
  unfold refreshAndEnqueue at hcall
  split at hcall
  · next h => exact .inr (hends hcall.symm (.inr rfl) fun _ hr => by cases h.symm.trans hr.interrupt)
  · next h => exact .inr (hends hcall.symm (.inl rfl) fun _ hr => by cases h.symm.trans hr.interrupt)
  · next h => exact .inr (hends hcall.symm (.inl rfl) fun _ hr => by cases h.symm.trans hr.interrupt)
  next hinterrupt =>
  split at hcall
  · next h => exact .inr (hends hcall.symm (.inr rfl) fun _ hr => by cases h.symm.trans hr.released)
  · next h => exact .inr (hends hcall.symm (.inl rfl) fun _ hr => by cases h.symm.trans hr.released)
  next hreleased =>
  split at hcall
  · next h => exact .inr (hends hcall.symm (.inr rfl) fun _ hr => by cases h.symm.trans hr.events)
  · next h => exact .inr (hends hcall.symm (.inl rfl) fun _ hr => by cases h.symm.trans hr.events)
  next fresh hevents =>
  split at hcall
  · next h =>
      exact .inr (hends hcall.symm (.inr rfl) fun _ hr => by
        obtain ⟨_, hstate, -⟩ := hr.state
        cases h.symm.trans hstate)
  · next h =>
      exact .inr (hends hcall.symm (.inl rfl) fun _ hr => by
        obtain ⟨_, hstate, -⟩ := hr.state
        cases h.symm.trans hstate)
  next missing hstate =>
  have hinventory : ∀ fresh', Refreshes s₁ w fresh' →
      (if missing then Reply.answers () else w.inventory) = .answers () := by
    intro fresh' hr
    obtain ⟨missing', hstate', hpages⟩ := hr.state
    obtain rfl := Reply.answers.inj (hstate.symm.trans hstate')
    cases missing with
    | true => rfl
    | false => exact hpages rfl
  split at hcall
  · next h => exact .inr (hends hcall.symm (.inr rfl) fun _ hr => by cases h.symm.trans (hinventory _ hr))
  · next h => exact .inr (hends hcall.symm (.inl rfl) fun _ hr => by cases h.symm.trans (hinventory _ hr))
  next hpages =>
  have hmissing : missing = false → w.inventory = .answers () := by
    rintro rfl
    exact hpages
  split at hcall
  · next h =>
      exact .inr (hends hcall.symm (.inr rfl) fun _ hr => by
        obtain ⟨_, hfacts⟩ := hr.facts
        cases h.symm.trans hfacts)
  · next h =>
      exact .inr (hends hcall.symm (.inl rfl) fun _ hr => by
        obtain ⟨_, hfacts⟩ := hr.facts
        cases h.symm.trans hfacts)
  next facts hfacts =>
  unfold enqueueReconciliation at hcall
  split at hcall
  · next h => exact .inr (hends hcall.symm (.inr rfl) fun _ hr => by cases h.symm.trans hr.enqueue)
  · next h => exact .inr (hends hcall.symm (.inl rfl) fun _ hr => by cases h.symm.trans hr.enqueue)
  next henqueue =>
  rcases enqueue_startup s₁ scope
      (startupPayload (s₁.foregroundTask scope) orphans admissions (mergeEvents carried fresh) facts)
      w.intentId w.enqueuedAt with
    ⟨hnew, row, hrow, hscope, hqueued, hkind, hpayload⟩ | ⟨hold, error, herror⟩
  · refine .inl ⟨fresh, facts, row,
      ⟨hinterrupt, hreleased, hevents, ⟨missing, hstate, hmissing⟩, ⟨facts, hfacts⟩, henqueue, hnew⟩,
      hscope, hqueued, hkind, hpayload, ?_⟩
    simp only [hrow] at hcall
    rw [← hcall, afterEnqueue]
    cases w.acknowledge <;> rfl
  · simp only [herror] at hcall
    exact .inr (hends hcall.symm (.inl rfl) fun _ hr => hold hr.newId)

/-! ## The claim's property and its condition -/

/-- The call gets as far as the `supersede`, with these events carried. -/
def ReachesSupersede (pyStr : Json → String) (s : RuntimeState) (scope : RuntimeScope)
    (orphans : List WorkIntent) (w : StartupWorld) (admissions : List (Json × Int))
    (carried : List Event) : Prop :=
  startupAdmissions (s.foregroundTask scope)
      (orphans.map (fun i => (i.payload, i.taskId))
        ++ (queuedOf s scope .recoveryReconcile).map fun r => (r.payload, r.taskId))
    = .ok admissions
    ∧ unhashableOwner admissions = false ∧ conflictingOwners admissions = false
    ∧ carriedEvents pyStr (queuedOf s scope .recoveryReconcile) (queuedOf s scope .bodyEvent)
      = .ok carried
    ∧ w.starts = .answers ()

/-- The call ends as `refreshAndEnqueue` does once it has superseded the
stale intents, and leaves the ledger alone before. -/
theorem enqueueStartupReconciliation_cases (pyStr : Json → String) (s : RuntimeState)
    (scope : RuntimeScope) (orphans : List WorkIntent) (w : StartupWorld) :
    (∃ admissions carried, ReachesSupersede pyStr s scope orphans w admissions carried
        ∧ enqueueStartupReconciliation pyStr s scope orphans w
          = refreshAndEnqueue scope orphans w (supersedeStale s scope w) admissions carried)
      ∨ (¬ ∃ admissions carried, ReachesSupersede pyStr s scope orphans w admissions carried)
        ∧ ∃ outcome, (outcome = .failed ∨ outcome = .died)
          ∧ enqueueStartupReconciliation pyStr s scope orphans w = (outcome, s) := by
  generalize hcall : enqueueStartupReconciliation pyStr s scope orphans w = result
  unfold enqueueStartupReconciliation at hcall
  dsimp only at hcall
  split at hcall
  · next h =>
      refine .inr ⟨fun ⟨_, _, hreach⟩ => ?_, _, .inl rfl, hcall.symm⟩
      cases h.symm.trans hreach.1
  next admissions hadmissions =>
  have hsame : ∀ {admissions' carried}, ReachesSupersede pyStr s scope orphans w admissions' carried →
      admissions' = admissions :=
    fun hreach => Except.ok.inj (hreach.1.symm.trans hadmissions)
  split at hcall
  · next h =>
      refine .inr ⟨fun ⟨_, _, hreach⟩ => ?_, _, .inl rfl, hcall.symm⟩
      obtain rfl := hsame hreach
      cases h.symm.trans hreach.2.1
  next hhash =>
  split at hcall
  · next h =>
      have hnot : ¬ ∃ admissions carried,
          ReachesSupersede pyStr s scope orphans w admissions carried := by
        rintro ⟨_, _, hreach⟩
        obtain rfl := hsame hreach
        cases h.symm.trans hreach.2.2.1
      split at hcall
      · exact .inr ⟨hnot, _, .inr rfl, hcall.symm⟩
      · exact .inr ⟨hnot, _, .inl rfl, hcall.symm⟩
  next hconflict =>
  split at hcall
  · next h =>
      refine .inr ⟨fun ⟨_, _, hreach⟩ => ?_, _, .inl rfl, hcall.symm⟩
      cases h.symm.trans hreach.2.2.2.1
  next carried hcarried =>
  split at hcall
  · next h =>
      refine .inr ⟨fun ⟨_, _, hreach⟩ => ?_, _, .inr rfl, hcall.symm⟩
      cases h.symm.trans hreach.2.2.2.2
  · next h =>
      refine .inr ⟨fun ⟨_, _, hreach⟩ => ?_, _, .inl rfl, hcall.symm⟩
      cases h.symm.trans hreach.2.2.2.2
  · next hstarts =>
      exact .inl ⟨admissions, carried, ⟨hadmissions, Bool.eq_false_iff.mpr hhash,
        Bool.eq_false_iff.mpr hconflict, hcarried, hstarts⟩, hcall.symm⟩

/-- Every event carried in `s` is still carried at the next start from `s'`. -/
def KeptAtNextStart (pyStr : Json → String) (scope : RuntimeScope) (s s' : RuntimeState) : Prop :=
  ∀ e, Carries pyStr s scope e → ∀ leaseOwner now later report s'',
    PersistentWorkIntentQueue.init ⟨scope, leaseOwner⟩ s' now later = .ok (report, s'') →
    Carries pyStr s'' scope e

/-- No event is lost by a call that ends so. -/
def LosesNothing (pyStr : Json → String) (scope : RuntimeScope) (s : RuntimeState)
    (w : StartupWorld) : StartupOutcome × RuntimeState → Prop
  | (.returned intent, s') =>
      (intent ∈ s'.workIntents ∧ intent.state = .queued ∧ intent.kind = .recoveryReconcile)
      ∧ ∀ e, (Carries pyStr s scope e ∨ ∃ fresh, w.events = .answers fresh ∧ e ∈ fresh) →
        CarriedIn pyStr intent.kind intent.payload e
  | (.failed, s') => KeptAtNextStart pyStr scope s s'
  | (.died, s') => KeptAtNextStart pyStr scope s s'

/-- A call that has superseded what carried events gets its intent queued,
and merging drops no event: none of those carried, and none of those read
once the cursor moves past them. -/
def SafeRefresh (pyStr : Json → String) (s : RuntimeState) (scope : RuntimeScope)
    (orphans : List WorkIntent) (w : StartupWorld) : Prop :=
  ∀ admissions carried, ReachesSupersede pyStr s scope orphans w admissions carried →
    (carried ≠ [] → ∃ fresh, Refreshes s w fresh)
    ∧ ∀ fresh, Refreshes s w fresh →
      (∀ e ∈ carried, LastOfKey (carried ++ fresh) e)
      ∧ (w.acknowledge = .answers () → ∀ e ∈ fresh, LastOfKey (carried ++ fresh) e)

theorem refreshes_supersedeStale {fresh : List Event} :
    Refreshes (supersedeStale s scope w) w fresh ↔ Refreshes s w fresh := by
  have hids : (supersedeStale s scope w).workIntents.map (·.intentId)
      = s.workIntents.map (·.intentId) := by
    unfold supersedeStale
    split
    · rfl
    · simp only [RuntimeState.supersedeQueuedWorkIntents, updateWhere, List.map_map]
      refine List.map_congr_left fun r _ => ?_
      simp only [Function.comp_apply]
      split <;> rfl
  have hnew : ∀ ids : List String, (∀ id ∈ ids, id ≠ w.intentId) ↔ w.intentId ∉ ids := by
    intro ids
    exact ⟨fun h hmem => h _ hmem rfl, fun h id hid heq => h (heq ▸ hid)⟩
  have hiff : (∀ r ∈ (supersedeStale s scope w).workIntents, r.intentId ≠ w.intentId)
      ↔ ∀ r ∈ s.workIntents, r.intentId ≠ w.intentId := by
    have hleft := hnew ((supersedeStale s scope w).workIntents.map (·.intentId))
    have hright := hnew (s.workIntents.map (·.intentId))
    rw [List.forall_mem_map] at hleft hright
    rw [hleft, hright, hids]
  constructor
  · rintro ⟨hi, hr, he, hs, hf, hq, hn⟩
    exact ⟨hi, hr, he, hs, hf, hq, hiff.mp hn⟩
  · rintro ⟨hi, hr, he, hs, hf, hq, hn⟩
    exact ⟨hi, hr, he, hs, hf, hq, hiff.mpr hn⟩

theorem init_ok (scope : RuntimeScope) (leaseOwner : String) (s : RuntimeState) (now later : Nat) :
    ∃ report s', PersistentWorkIntentQueue.init ⟨scope, leaseOwner⟩ s now later
      = .ok (report, s') := by
  simp only [PersistentWorkIntentQueue.init, abandon_eq, bind, Except.bind, pure, Except.pure]
  exact ⟨_, _, rfl⟩

/-- What the next start finds is what is queued now. -/
theorem keptAtNextStart_iff {s' : RuntimeState} :
    KeptAtNextStart pyStr scope s s'
      ↔ ∀ e, Carries pyStr s scope e → Carries pyStr s' scope e := by
  constructor
  · intro h e he
    obtain ⟨report, s'', hinit⟩ := init_ok scope "next" s' 0 0
    exact (carries_init hinit).mp (h e he "next" 0 0 report s'' hinit)
  · intro h e he leaseOwner now later report s'' hinit
    exact (carries_init hinit).mpr (h e he)

theorem carries_insert {row : WorkIntentRow} {e : Event} (hscope : row.scopeKey = scope.key)
    (hstate : row.state = .queued) :
    Carries pyStr (s.insert row) scope e
      ↔ Carries pyStr s scope e ∨ CarriedIn pyStr row.kind row.payload e := by
  constructor
  · rintro ⟨r, hr, hspec⟩
    rcases List.mem_append.mp hr with hr | hr
    · exact .inl ⟨r, hr, hspec⟩
    · obtain rfl := List.mem_singleton.mp hr
      exact .inr hspec.2.2
  · rintro (⟨r, hr, hspec⟩ | hcarried)
    · exact ⟨r, List.mem_append_left _ hr, hspec⟩
    · exact ⟨row, List.mem_append_right _ List.mem_cons_self, hscope, hstate, hcarried⟩

/-- **When startup reconciliation loses nothing.** -/
theorem startup_loses_nothing_iff (pyStr : Json → String) (s : RuntimeState)
    (scope : RuntimeScope) (orphans : List WorkIntent) (w : StartupWorld) :
    LosesNothing pyStr scope s w (enqueueStartupReconciliation pyStr s scope orphans w)
      ↔ SafeRefresh pyStr s scope orphans w := by
  rcases enqueueStartupReconciliation_cases pyStr s scope orphans w with
    ⟨admissions, carried, hreach, hcall⟩ | ⟨hnot, outcome, houtcome, hcall⟩
  · have hcarried : ∀ e, Carries pyStr s scope e ↔ e ∈ carried := fun e =>
      (mem_carriedEvents hreach.2.2.2.1).symm
    have hsafe : SafeRefresh pyStr s scope orphans w
        ↔ (carried ≠ [] → ∃ fresh, Refreshes s w fresh)
          ∧ ∀ fresh, Refreshes s w fresh →
            (∀ e ∈ carried, LastOfKey (carried ++ fresh) e)
            ∧ (w.acknowledge = .answers () → ∀ e ∈ fresh, LastOfKey (carried ++ fresh) e) := by
      constructor
      · exact fun h => h admissions carried hreach
      · intro h admissions' carried' hreach'
        obtain rfl := Except.ok.inj (hreach.2.2.2.1.symm.trans hreach'.2.2.2.1)
        exact h
    rw [hcall, hsafe]
    rcases refreshAndEnqueue_spec (supersedeStale s scope w) scope orphans w admissions carried with
      ⟨fresh, facts, row, hrefresh, hscope, hqueued, hkind, hpayload, hend⟩
        | ⟨hnone, outcome, houtcome, hend⟩
    · have hfresh := refreshes_supersedeStale.mp hrefresh
      have hmem : ∀ e, CarriedIn pyStr row.kind row.payload e
          ↔ LastOfKey (carried ++ fresh) e := by
        intro e
        rw [hkind, hpayload, mem_startupPayload, mem_mergeEvents]
      have honly : ∀ fresh', Refreshes s w fresh' → fresh' = fresh := fun fresh' h =>
        Reply.answers.inj (h.events.symm.trans hfresh.events)
      have hkept : KeptAtNextStart pyStr scope s ((supersedeStale s scope w).insert row)
          ↔ ∀ e ∈ carried, LastOfKey (carried ++ fresh) e := by
        rw [keptAtNextStart_iff]
        refine forall_congr' fun e => ?_
        rw [hcarried, carries_insert hscope hqueued, hmem,
          or_iff_right (not_carries_supersedeStale w)]
      have hcond : ((carried ≠ [] → ∃ fresh, Refreshes s w fresh)
          ∧ ∀ fresh, Refreshes s w fresh →
            (∀ e ∈ carried, LastOfKey (carried ++ fresh) e)
            ∧ (w.acknowledge = .answers () → ∀ e ∈ fresh, LastOfKey (carried ++ fresh) e))
          ↔ (∀ e ∈ carried, LastOfKey (carried ++ fresh) e)
            ∧ (w.acknowledge = .answers () → ∀ e ∈ fresh, LastOfKey (carried ++ fresh) e) := by
        constructor
        · exact fun h => h.2 fresh hfresh
        · intro h
          refine ⟨fun _ => ⟨fresh, hfresh⟩, fun fresh' hfresh' => ?_⟩
          obtain rfl := honly fresh' hfresh'
          exact h
      rw [hend, hcond, afterEnqueue]
      cases hack : w.acknowledge with
      | dies => simpa [LosesNothing] using hkept
      | raises => simpa [LosesNothing] using hkept
      | answers _ =>
          have hrow : row ∈ ((supersedeStale s scope w).insert row).workIntents :=
            List.mem_append_right _ List.mem_cons_self
          simp only [LosesNothing, hrow, hqueued, hkind, true_and, forall_const, hcarried,
            hfresh.events, Reply.answers.injEq, exists_eq_left']
          rw [← hkind]
          simp only [hmem, or_imp, forall_and]
    · have hno : ¬ ∃ fresh, Refreshes s w fresh := fun ⟨fresh, h⟩ =>
        hnone ⟨fresh, refreshes_supersedeStale.mpr h⟩
      have hkept : KeptAtNextStart pyStr scope s (supersedeStale s scope w) ↔ carried = [] := by
        rw [keptAtNextStart_iff]
        constructor
        · intro h
          refine List.eq_nil_iff_forall_not_mem.mpr fun e he => ?_
          exact not_carries_supersedeStale w (h e ((hcarried e).mpr he))
        · rintro rfl e he
          exact absurd ((hcarried e).mp he) List.not_mem_nil
      have hcond : ((carried ≠ [] → ∃ fresh, Refreshes s w fresh)
          ∧ ∀ fresh, Refreshes s w fresh →
            (∀ e ∈ carried, LastOfKey (carried ++ fresh) e)
            ∧ (w.acknowledge = .answers () → ∀ e ∈ fresh, LastOfKey (carried ++ fresh) e))
          ↔ carried = [] := by
        constructor
        · exact fun h => Decidable.byContradiction fun hne => hno (h.1 hne)
        · exact fun h => ⟨fun hne => absurd h hne, fun fresh hfresh => absurd ⟨fresh, hfresh⟩ hno⟩
      rw [hend, hcond]
      rcases houtcome with rfl | rfl
      · exact hkept
      · exact hkept
  · have hsafe : SafeRefresh pyStr s scope orphans w :=
      fun admissions carried hreach => absurd ⟨admissions, carried, hreach⟩ hnot
    have hkept : KeptAtNextStart pyStr scope s s := keptAtNextStart_iff.mpr fun _ h => h
    rw [hcall]
    rcases houtcome with rfl | rfl
    · exact ⟨fun _ => hsafe, fun _ => hkept⟩
    · exact ⟨fun _ => hsafe, fun _ => hkept⟩

def pendingEvent : Event := ⟨1, 10, "minebot", "onDamage", []⟩

/-- A Body event waits to be handled. -/
def pendingDamage : RuntimeState :=
  RuntimeState.empty.insert
    { intentId := "a", scopeKey := "villa", revision := 1, kind := .bodyEvent, source := "body"
      priority := 50, payload := [("event", eventPayload pendingEvent)], dedupeKey := none
      taskId := none, generation := none, state := .queued, availableAt := 0, createdAt := 0
      leaseOwner := none, leaseExpiresAt := none, attemptCount := 0, leasedAt := none
      completedAt := none, error := none }

/-- The Body rejects the interrupt. -/
def rejectedInterrupt : StartupWorld where
  starts := .answers ()
  interrupt := .answers false
  heads := [.answers none]
  events := .answers []
  state := .answers false
  inventory := .answers ()
  facts := .answers []
  enqueue := .answers ()
  acknowledge := .answers ()
  intentId := "b"
  supersededAt := 1000
  enqueuedAt := 2000

/-- The rejected interrupt comes after the `supersede`: the event is gone. -/
theorem rejected_interrupt_loses_event :
    ¬ LosesNothing (fun _ => "") ⟨"villa", "minebot"⟩ pendingDamage rejectedInterrupt
      (enqueueStartupReconciliation (fun _ => "") pendingDamage ⟨"villa", "minebot"⟩ []
        rejectedInterrupt) := by
  intro hloses
  have hkept : KeptAtNextStart (fun _ => "") ⟨"villa", "minebot"⟩ pendingDamage
      (supersedeStale pendingDamage ⟨"villa", "minebot"⟩ rejectedInterrupt) := hloses
  have hcarries : Carries (fun _ => "") pendingDamage ⟨"villa", "minebot"⟩ pendingEvent := by
    obtain ⟨raw, hraw, hread⟩ :=
      eventFromPayload_eventPayload (fun _ => "") pendingEvent
    refine ⟨_, List.mem_singleton_self _, rfl, rfl, raw, hread, .inr ⟨rfl, ?_⟩⟩
    rw [show bodyIntentEvents _ = [raw] by simp only [bodyIntentEvents, Dict.get?, hraw]; rfl]
    exact List.mem_singleton_self raw
  exact not_carries_supersedeStale rejectedInterrupt
    (keptAtNextStart_iff.mp hkept pendingEvent hcarries)

end Startup

end MineBot
