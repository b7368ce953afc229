import MineBot.LedgerSteps
import MineBot.WorkQueue

/-!
# Arrival order

Which of the queued intents of one priority `lease_next` of the durable
queue serves. The ledger holds no arrival counter: the order is read back
from `created_at`, in milliseconds, and the random id. Along a run the
rows stand in the order their `enqueue` calls returned, and their
timestamps never decrease in that order; so the first arrival is served
unless it shares its tick with a row of smaller id.
-/

namespace MineBot

open Table Relation

/-! ## Runs of the durable queue -/

/-- A call, with the id a new intent would get and two clock readings. -/
structure QueueInput where
  call : QueueCall WorkIntent
  intentId : String
  now : Nat
  later : Nat

abbrev QueueLog := List (QueueInput × Except StoreError QueueResult)

namespace PersistentWorkIntentQueue

variable (q : PersistentWorkIntentQueue)

def step (s : RuntimeState) (i : QueueInput) : Except StoreError QueueResult × RuntimeState :=
  q.call s i.intentId i.now i.later i.call

/-- The ledger call behind a queue call; a reading has none. -/
def ledgerOp? (i : QueueInput) : Option LedgerOp :=
  match i.call with
  | .enqueue kind source payload dedupeKey taskId generation =>
      some (.enqueue q.scope ⟨kind, source, kind.workIntentPriority, payload, dedupeKey, taskId,
        generation⟩ none i.intentId i.now)
  | .leaseNext kind => some (.leaseNext q.scope q.leaseOwner leaseMicros kind i.now i.later)
  | .bindAdmission intent checkpointId evidenceCursor taskId =>
      some (.bind q.scope intent.intentId intent.revision q.leaseOwner checkpointId
        evidenceCursor taskId i.now)
  | .reserveRecoveryAttempt intent maxAttempts =>
      some (.reserve q.scope intent.intentId intent.revision q.leaseOwner maxAttempts i.now)
  | .confirmRecovery intent =>
      some (.confirm q.scope intent.intentId intent.revision q.leaseOwner i.now)
  | .reconcileRecovery intent state =>
      some (.reconcile q.scope intent.intentId intent.revision q.leaseOwner state i.now)
  | .complete intent =>
      some (.finish intent.intentId intent.revision .completed none i.now)
  | .fail intent error =>
      some (.finish intent.intentId intent.revision .failed (some error) i.now)
  | .supersedeActive intent reason =>
      some (.finish intent.intentId intent.revision .superseded
        (some [("reason", .str reason)]) i.now)
  | .supersede kinds reason => some (.supersede q.scope kinds reason i.now)
  | .issueTaskContinuation checkpointId checkpointRevision taskId payload dedupeKey
      generation =>
      some (.issueContinuation q.scope checkpointId checkpointRevision taskId generation
        .taskContinue "task_checkpoint_continue" WorkIntentKind.taskContinue.workIntentPriority
        payload dedupeKey i.intentId i.now)
  | .pendingCount | .countForTask _ _ | .queuedIntents _ | .getByDedupe _ => none

theorem settle_state {α : Type} (s : RuntimeState) (f : α → QueueResult)
    (g : α → LedgerResult) (res : Except StoreError (α × RuntimeState)) :
    (settle s f res).2 = (commit s g res).2 := by
  cases res <;> rfl

/-- **The queue works on the ledger through its calls alone.** -/
theorem step_state (s : RuntimeState) (i : QueueInput) :
    (q.step s i).2 = match q.ledgerOp? i with
      | some op => (ledgerStep s op).2
      | none => s := by
  obtain ⟨call, intentId, now, later⟩ := i
  cases call with
  | pendingCount => rfl
  | countForTask => rfl
  | queuedIntents => rfl
  | getByDedupe => rfl
  | supersede => rfl
  | _ => exact settle_state ..

end PersistentWorkIntentQueue

/-! ## Arrivals -/

/-- The intent an `enqueue` call, or one that issues a continuation,
returned. -/
def arrivalOf? : QueueInput × Except StoreError QueueResult → Option String
  | (⟨.enqueue _ _ _ _ _ _, _, _, _⟩, .ok (.intent i)) => some i.intentId
  | (⟨.issueTaskContinuation _ _ _ _ _ _, _, _, _⟩, .ok (.intent? (some i))) =>
      some i.intentId
  | _ => none

/-- The intents these calls returned, in order. -/
def arrivals (log : QueueLog) : List String := log.filterMap arrivalOf?

/-- When the intent first was returned. -/
def arrival (log : QueueLog) (intentId : String) : Nat := (arrivals log).idxOf intentId

/-- The clock never goes back, and no lease has expired. -/
structure Steady (log : QueueLog) (s : RuntimeState) (i : QueueInput) : Prop where
  clock : ∀ e ∈ log, e.1.now ≤ i.now
  unexpired : ∀ r ∈ s.workIntents, r.state = .leased → r.expired (utcNow i.now) = false

/-- Waiting for a lease of this kind. -/
def Waiting (s : RuntimeState) (kind : Option WorkIntentKind) (r : WorkIntentRow) : Prop :=
  r ∈ s.workIntents ∧ r.state = .queued ∧ r.ofKind kind = true

/-- Of the waiting intents of highest priority, the first to arrive. -/
structure FirstArrived (log : QueueLog) (s : RuntimeState) (kind : Option WorkIntentKind)
    (r : WorkIntentRow) : Prop where
  waiting : Waiting s kind r
  first : ∀ r', Waiting s kind r' → r'.priority < r.priority
    ∨ r'.priority = r.priority ∧ arrival log r.intentId ≤ arrival log r'.intentId

/-- `lease_next` has returned the first arrival. -/
def ServesFirst (log : QueueLog) (s : RuntimeState) (kind : Option WorkIntentKind)
    (output : Except StoreError QueueResult) : Prop :=
  ∀ r, FirstArrived log s kind r →
    ∃ leased, output = .ok (.intent? (some leased)) ∧ leased.intentId = r.intentId

/-- No intent that waits beside the first arrival, with its priority and
its millisecond, has a smaller id, and the lease owner is a text. -/
def NoSmallerId (q : PersistentWorkIntentQueue) (log : QueueLog) (s : RuntimeState)
    (kind : Option WorkIntentKind) : Prop :=
  ∀ r, FirstArrived log s kind r → requiredText q.leaseOwner 256 ≠ none
    ∧ ∀ r', Waiting s kind r' → r'.priority = r.priority → r'.createdAt = r.createdAt →
      r.intentId ≤ r'.intentId

/-! ## The invariant -/

structure Arrived (q : PersistentWorkIntentQueue) (log : QueueLog) (s : RuntimeState) :
    Prop where
  keyed : Keyed (·.intentId) s.workIntents
  known : ∀ id, id ∈ arrivals log ↔ id ∈ s.workIntents.map (·.intentId)
  inScope : ∀ r ∈ s.workIntents, r.scopeKey = q.scope.key
  available : ∀ r ∈ s.workIntents, r.availableAt = r.createdAt
  past : ∀ r ∈ s.workIntents, ∃ e ∈ log, r.createdAt = utcNow e.1.now
  order : (s.workIntents.map fun r => (r.intentId, r.createdAt)).Pairwise fun a b =>
    arrival log a.1 < arrival log b.1 ∧ a.2 ≤ b.2

theorem utcNow_mono {a b : Nat} (h : a ≤ b) : utcNow a ≤ utcNow b :=
  Nat.div_le_div_right h

theorem arrivals_append_singleton (log : QueueLog)
    (e : QueueInput × Except StoreError QueueResult) :
    arrivals (log ++ [e]) = arrivals log ++ (arrivalOf? e).toList := by
  rw [arrivals, arrivals, List.filterMap_append]
  cases h : arrivalOf? e <;> simp [h]

theorem arrival_append {log : QueueLog} {e : QueueInput × Except StoreError QueueResult}
    {id : String} (h : id ∈ arrivals log) : arrival (log ++ [e]) id = arrival log id := by
  rw [arrival, arrivals_append_singleton, List.idxOf_append_of_mem h]
  rfl

section

variable {q : PersistentWorkIntentQueue} {log : QueueLog} {s : RuntimeState} {i : QueueInput}

/-- A call that inserts nothing leaves every row in its place. -/
theorem moves_of_drafts_nothing {op : LedgerOp} (h : ∀ r, ¬ op.Drafts r) :
    Moves RowStep s.workIntents (ledgerStep s op).2.workIntents :=
  (ledgerStep_outcome s op).rows.resolve_right fun ⟨r, hdrafts, _⟩ => h r hdrafts

/-- **What a queue call does to the rows**: it leaves them in their places
and returns a known one, if any, as an arrival, or it appends the arrival
it returns. -/
theorem step_rows (q : PersistentWorkIntentQueue) (s : RuntimeState) (i : QueueInput) :
    (Moves RowStep s.workIntents (q.step s i).2.workIntents
        ∧ ∀ id, arrivalOf? (i, (q.step s i).1) = some id →
          id ∈ s.workIntents.map (·.intentId))
      ∨ ∃ r, (q.step s i).2 = s.insert r ∧ s.insertable r = true
        ∧ arrivalOf? (i, (q.step s i).1) = some r.intentId ∧ r.scopeKey = q.scope.key
        ∧ r.availableAt = r.createdAt ∧ r.createdAt = utcNow i.now := by
  have hstate := q.step_state s i
  obtain ⟨call, intentId, now, later⟩ := i
  cases call with
  | enqueue kind source payload dedupeKey taskId generation =>
      simp only [PersistentWorkIntentQueue.step, PersistentWorkIntentQueue.call] at hstate ⊢
      rcases h : s.enqueueWorkIntent q.scope ⟨kind, source, kind.workIntentPriority, payload,
        dedupeKey, taskId, generation⟩ none intentId now with e | ⟨r, s'⟩
      · exact .inl ⟨.refl _, by simp [settle, arrivalOf?]⟩
      · rcases enqueue_spec h with ⟨source', hdraft, hins, rfl⟩ | ⟨hr, rfl⟩
        · exact .inr ⟨r, rfl, hins, rfl, by rw [hdraft]; rfl, by rw [hdraft]; rfl,
            by rw [hdraft]; rfl⟩
        · refine .inl ⟨.refl _, fun id hid => ?_⟩
          obtain rfl : r.intentId = id := by simpa [settle, arrivalOf?, intentFromRow] using hid
          exact List.mem_map_of_mem hr
  | issueTaskContinuation checkpointId checkpointRevision taskId payload dedupeKey generation =>
      simp only [PersistentWorkIntentQueue.step, PersistentWorkIntentQueue.call] at hstate ⊢
      rcases h : s.issueCheckpointContinuation q.scope checkpointId checkpointRevision taskId
        generation .taskContinue "task_checkpoint_continue"
        WorkIntentKind.taskContinue.workIntentPriority payload dedupeKey intentId now
        with e | ⟨res, s'⟩
      · exact .inl ⟨.refl _, by simp [settle, arrivalOf?]⟩
      · rcases issue_spec h with ⟨source', dedupe, r, hdraft, rfl, hins, rfl⟩ | ⟨hr, rfl⟩
        · exact .inr ⟨r, rfl, hins, rfl, by rw [hdraft]; rfl, by rw [hdraft]; rfl,
            by rw [hdraft]; rfl⟩
        · refine .inl ⟨.refl _, fun id hid => ?_⟩
          cases res with
          | none => simp [settle, arrivalOf?] at hid
          | some r =>
              obtain rfl : r.intentId = id := by
                simpa [settle, arrivalOf?, intentFromRow] using hid
              exact List.mem_map_of_mem (hr r rfl)
  | pendingCount => exact .inl ⟨hstate ▸ .refl _, nofun⟩
  | countForTask => exact .inl ⟨hstate ▸ .refl _, nofun⟩
  | queuedIntents => exact .inl ⟨hstate ▸ .refl _, nofun⟩
  | getByDedupe => exact .inl ⟨hstate ▸ .refl _, nofun⟩
  | _ => exact .inl ⟨hstate ▸ moves_of_drafts_nothing fun _ => id, nofun⟩

theorem Arrived.start (hempty : s.workIntents = []) : Arrived q [] s where
  keyed := by rw [hempty]; exact List.nodup_nil
  known := by simp [hempty, arrivals]
  inScope := by simp [hempty]
  available := by simp [hempty]
  past := by simp [hempty]
  order := by rw [hempty]; exact .nil

/-- A later entry of the log moves no arrival. -/
theorem Arrived.order_append (h : Arrived q log s)
    (e : QueueInput × Except StoreError QueueResult) :
    (s.workIntents.map fun r => (r.intentId, r.createdAt)).Pairwise fun a b =>
      arrival (log ++ [e]) a.1 < arrival (log ++ [e]) b.1 ∧ a.2 ≤ b.2 := by
  have hold : ∀ a ∈ s.workIntents.map fun r => (r.intentId, r.createdAt),
      arrival (log ++ [e]) a.1 = arrival log a.1 := by
    intro a ha
    obtain ⟨r, hr, rfl⟩ := List.mem_map.mp ha
    exact arrival_append ((h.known _).mpr (List.mem_map_of_mem hr))
  exact h.order.imp_of_mem fun ha hb hab => by rwa [hold _ ha, hold _ hb]

theorem Arrived.step (h : Arrived q log s) (hok : Steady log s i) :
    Arrived q (log ++ [(i, (q.step s i).1)]) (q.step s i).2 := by
  have hpast : ∀ r ∈ s.workIntents, ∃ e ∈ log ++ [(i, (q.step s i).1)],
      r.createdAt = utcNow e.1.now := fun r hr => by
    obtain ⟨e, he, hcreated⟩ := h.past r hr
    exact ⟨e, List.mem_append_left _ he, hcreated⟩
  rcases step_rows q s i with ⟨hmoves, harrival⟩ | ⟨r, hstate, hins, harrival, hscope, havail, hnow⟩
  · have hids := hmoves.column (f := (·.intentId)) fun _ => rfl
    have hkept : ∀ r' ∈ (q.step s i).2.workIntents, ∃ r ∈ s.workIntents, r'.fixed = r.fixed := by
      intro r' hr'
      obtain ⟨r, hr, hpath⟩ := hmoves.origin hr'
      exact ⟨r, hr, fixed_of_path hpath⟩
    refine ⟨hmoves.keyed h.keyed, fun id => ?_, fun r' hr' => ?_, fun r' hr' => ?_,
      fun r' hr' => ?_, ?_⟩
    · rw [arrivals_append_singleton, List.mem_append, hids, ← h.known]
      constructor
      · rintro (hid | hid)
        · exact hid
        · exact (h.known id).mpr (harrival id (by simpa using hid))
      · exact .inl
    · obtain ⟨r, hr, hfixed⟩ := hkept r' hr'
      exact (congrArg (·.scopeKey) hfixed).trans (h.inScope r hr)
    · obtain ⟨r, hr, hfixed⟩ := hkept r' hr'
      have hcol := congrArg (fun r : WorkIntentRow => (r.availableAt, r.createdAt)) hfixed
      obtain ⟨ha, hc⟩ := Prod.mk.inj hcol
      exact ha.trans ((h.available r hr).trans hc.symm)
    · obtain ⟨r, hr, hfixed⟩ := hkept r' hr'
      obtain ⟨e, he, hcreated⟩ := hpast r hr
      exact ⟨e, he, (congrArg (·.createdAt) hfixed).trans hcreated⟩
    · rw [hmoves.column fun _ => rfl]
      exact h.order_append _
  · rw [hstate]
    have hnew : ∀ r' ∈ s.workIntents, r'.intentId ≠ r.intentId := by
      simp only [RuntimeState.insertable, Bool.and_eq_true, List.all_eq_true,
        decide_eq_true_eq] at hins
      exact hins.1.1
    have hfresh : r.intentId ∉ arrivals log := by
      rw [h.known]
      intro hmem
      obtain ⟨r', hr', hid⟩ := List.mem_map.mp hmem
      exact hnew r' hr' hid
    have hall : ∀ {P : WorkIntentRow → Prop}, (∀ r' ∈ s.workIntents, P r') → P r →
        ∀ r' ∈ (s.insert r).workIntents, P r' := fun hold hr r' hr' => by
      rcases List.mem_append.mp hr' with hr' | hr'
      · exact hold r' hr'
      · exact List.mem_singleton.mp hr' ▸ hr
    refine ⟨h.keyed.append_singleton hnew, fun id => ?_, hall h.inScope hscope,
      hall h.available havail, hall hpast ⟨_, List.mem_append_right _ (.head _), hnow⟩, ?_⟩
    · rw [arrivals_append_singleton, harrival, List.mem_append, h.known]
      simp [RuntimeState.insert, eq_comm]
    · rw [RuntimeState.insert, List.map_append, List.pairwise_append]
      refine ⟨h.order_append _, List.pairwise_singleton _ _, fun a ha b hb => ?_⟩
      obtain rfl := List.mem_singleton.mp hb
      obtain ⟨r', hr', rfl⟩ := List.mem_map.mp ha
      have hid := (h.known _).mpr (List.mem_map_of_mem hr')
      refine ⟨?_, ?_⟩
      · rw [arrival_append hid, arrival, arrival, arrivals_append_singleton, harrival,
          List.idxOf_append_of_notMem hfresh]
        exact Nat.lt_add_right _ (List.idxOf_lt_length_of_mem hid)
      · obtain ⟨e, he, hcreated⟩ := h.past r' hr'
        show r'.createdAt ≤ r.createdAt
        rw [hcreated, hnow]
        exact utcNow_mono (hok.clock e he)

/-- An earlier arrival was not created later. -/
theorem Arrived.created_le (h : Arrived q log s) {r r' : WorkIntentRow}
    (hr : r ∈ s.workIntents) (hr' : r' ∈ s.workIntents)
    (hle : arrival log r.intentId ≤ arrival log r'.intentId) : r.createdAt ≤ r'.createdAt := by
  have hpairwise := List.pairwise_map.mp h.order
  obtain ⟨n, hn, rfl⟩ := List.getElem_of_mem hr
  obtain ⟨m, hm, rfl⟩ := List.getElem_of_mem hr'
  rcases Nat.lt_trichotomy n m with hlt | rfl | hlt
  · exact (List.pairwise_iff_getElem.mp hpairwise n m hn hm hlt).2
  · exact le_rfl
  · exact absurd (List.pairwise_iff_getElem.mp hpairwise m n hm hn hlt).1 (not_lt.mpr hle)

theorem Arrived.of_run {s₀ : RuntimeState} (hrun : Run q.step Steady s₀ log s)
    (hempty : s₀.workIntents = []) : Arrived q log s :=
  hrun.invariant (.start hempty) fun _ _ _ _ hok ih => ih.step hok

/-- There is one first arrival. -/
theorem Arrived.first_unique (h : Arrived q log s) {kind : Option WorkIntentKind}
    {r r' : WorkIntentRow} (hr : FirstArrived log s kind r) (hr' : FirstArrived log s kind r') :
    r = r' := by
  have hle := hr.first r' hr'.waiting
  have hle' := hr'.first r hr.waiting
  have hknown := (h.known _).mpr (List.mem_map_of_mem hr.waiting.1)
  refine h.keyed.unique hr.waiting.1 hr'.waiting.1 ((List.idxOf_inj hknown).mp ?_)
  change arrival log r.intentId = arrival log r'.intentId
  omega

/-! ## What `lease_next` serves -/

theorem mem_waitingRows {kind : Option WorkIntentKind} {r : WorkIntentRow} :
    r ∈ waitingRows s kind ↔ Waiting s kind r := by
  simp [waitingRows, Waiting]

theorem Arrived.lease_result (h : Arrived q log s) (hok : Steady log s i)
    {kind : Option WorkIntentKind} (hcall : i.call = .leaseNext kind) :
    (q.step s i).1 = match (waitingRows s kind).argmin (·.serviceKey) with
      | none => .ok (.intent? none)
      | some row => match requiredText q.leaseOwner 256 with
        | none => .error (.emptyText "lease_owner")
        | some owner => .ok (.intent? (some (intentFromRow (row.lease owner
            (utcAfter i.later PersistentWorkIntentQueue.leaseMicros) (utcNow i.now))))) := by
  have hready : ∀ r ∈ s.workIntents, r.scopeKey = q.scope.key ∧ r.availableAt ≤ utcNow i.now := by
    intro r hr
    obtain ⟨e, he, hcreated⟩ := h.past r hr
    rw [h.available r hr, hcreated]
    exact ⟨h.inScope r hr, utcNow_mono (hok.clock e he)⟩
  simp only [PersistentWorkIntentQueue.step, hcall, PersistentWorkIntentQueue.call,
    leaseNext_eq h.keyed hready hok.unexpired]
  cases (waitingRows s kind).argmin (·.serviceKey) with
  | none => rfl
  | some row => cases requiredText q.leaseOwner 256 <;> rfl

theorem serviceKey_le {a b : WorkIntentRow} : a.serviceKey ≤ b.serviceKey ↔
    b.priority < a.priority ∨ a.priority = b.priority
      ∧ (a.createdAt < b.createdAt ∨ a.createdAt = b.createdAt ∧ a.intentId ≤ b.intentId) := by
  simp only [WorkIntentRow.serviceKey, Prod.Lex.toLex_le_toLex, Int.neg_lt_neg_iff,
    Int.neg_inj]

/-- The row `lease_next` chooses is the first arrival if and only if none
beside that one has a smaller id. -/
theorem Arrived.chosen_iff (h : Arrived q log s) {kind : Option WorkIntentKind}
    {row r : WorkIntentRow} (hrow : row ∈ (waitingRows s kind).argmin (·.serviceKey))
    (hfirst : FirstArrived log s kind r) :
    row.intentId = r.intentId ↔ ∀ r', Waiting s kind r' → r'.priority = r.priority →
      r'.createdAt = r.createdAt → r.intentId ≤ r'.intentId := by
  have hwait := mem_waitingRows.mp (List.argmin_mem hrow)
  have hleast : ∀ r', Waiting s kind r' → row.serviceKey ≤ r'.serviceKey := fun r' hr' =>
    List.le_of_mem_argmin (mem_waitingRows.mpr hr') hrow
  constructor
  · intro hid r' hr' hprio hcreated
    obtain rfl := h.keyed.unique hwait.1 hfirst.waiting.1 hid
    rcases serviceKey_le.mp (hleast r' hr') with hlt | ⟨-, hlt | ⟨-, hle⟩⟩
    · omega
    · omega
    · exact hle
  · intro hleastId
    have hkey := serviceKey_le.mp (hleast r hfirst.waiting)
    -- the chosen row has the first arrival's priority, hence arrived after it
    obtain ⟨hprio, harrival⟩ := (hfirst.first row hwait).resolve_left fun hlt => by
      rcases hkey with hgt | ⟨heq, -⟩ <;> omega
    have hcreated := h.created_le hfirst.waiting.1 hwait.1 harrival
    rcases hkey with hlt | ⟨-, hlt | ⟨heq, hle⟩⟩
    · omega
    · omega
    · exact le_antisymm hle (hleastId row hwait hprio heq)

/-- **Arrival order**: at every point of every run in which the clock does
not go back and no lease expires, `lease_next` serves the first arrival of
the highest priority if and only if no intent that shares its priority
and its millisecond has a smaller id. -/
theorem arrival_order_iff {s₀ : RuntimeState} {kind : Option WorkIntentKind}
    (hrun : Run q.step Steady s₀ log s) (hempty : s₀.workIntents = [])
    (hok : Steady log s i) (hcall : i.call = .leaseNext kind) :
    ServesFirst log s kind (q.step s i).1 ↔ NoSmallerId q log s kind := by
  have h := Arrived.of_run hrun hempty
  rw [h.lease_result hok hcall]
  refine forall_congr' fun r => forall_congr' fun hfirst => ?_
  cases hrow : (waitingRows s kind).argmin (·.serviceKey) with
  | none =>
      have hnone := List.argmin_eq_none.mp hrow
      exact absurd (mem_waitingRows.mpr hfirst.waiting) (by simp [hnone])
  | some row =>
      rw [← h.chosen_iff hrow hfirst]
      cases howner : requiredText q.leaseOwner 256 with
      | none => simp
      | some owner => simp [intentFromRow, WorkIntentRow.lease]

end

/-! ## One tick -/

def tickQueue : PersistentWorkIntentQueue := ⟨⟨"s", "Bot"⟩, "w"⟩

/-- A message that arrives at `now`. -/
def messageAt (intentId : String) (now : Nat) : QueueInput :=
  ⟨.enqueue .message "cli" [] none none none, intentId, now, now⟩

/-- Its row. -/
def messageRow (intentId : String) (now : Nat) : WorkIntentRow :=
  RuntimeState.draftRow tickQueue.scope intentId
    ⟨.message, "cli", 76, [], none, none, none⟩ (utcNow now) (utcNow now)

/-- The message `b`, then `a`, and then a lease is asked for. -/
def twoMessages (first second : Nat) : QueueLog × RuntimeState :=
  exec tickQueue.step .empty [messageAt "b" first, messageAt "a" second]

def leaseAt (now : Nat) : QueueInput := ⟨.leaseNext none, "", now, now⟩

theorem twoMessages_run {first second : Nat} (h : first ≤ second) :
    Run tickQueue.step Steady .empty (twoMessages first second).1 (twoMessages first second).2 :=
  (Run.start.next (messageAt "b" first) ⟨by simp, by simp [RuntimeState.empty]⟩).next
    (messageAt "a" second) ⟨by simpa [messageAt] using h, by
      intro r hr hs
      obtain rfl : r = messageRow "b" first := by
        simpa using (show r ∈ [messageRow "b" first] from hr)
      cases hs⟩

theorem twoMessages_rows (first second : Nat) : (twoMessages first second).2.workIntents
    = [messageRow "b" first, messageRow "a" second] := rfl

theorem twoMessages_steady {first second now : Nat} (h : first ≤ second) (h' : second ≤ now) :
    Steady (twoMessages first second).1 (twoMessages first second).2 (leaseAt now) where
  clock := by
    intro e he
    have hlog : (twoMessages first second).1.map (·.1.now) = [first, second] := rfl
    have hmem := List.mem_map_of_mem (f := (·.1.now)) he
    rw [hlog] at hmem
    simp only [List.mem_cons, List.not_mem_nil, or_false] at hmem
    simp only [leaseAt]
    omega
  unexpired := by
    intro r hr hs
    rw [twoMessages_rows] at hr
    simp only [List.mem_cons, List.not_mem_nil, or_false] at hr
    rcases hr with rfl | rfl <;> cases hs

theorem twoMessages_first (first second : Nat) :
    FirstArrived (twoMessages first second).1 (twoMessages first second).2 none
      (messageRow "b" first) where
  waiting := ⟨List.mem_cons_self, rfl, rfl⟩
  first := by
    rintro r' ⟨hr', -, -⟩
    rw [twoMessages_rows] at hr'
    simp only [List.mem_cons, List.not_mem_nil, or_false] at hr'
    have harrivals : arrivals (twoMessages first second).1 = ["b", "a"] := rfl
    rcases hr' with rfl | rfl <;>
      exact .inr ⟨rfl, by simp [arrival, harrivals, messageRow, RuntimeState.draftRow]⟩

/-- The intent a lease handed out. -/
def leasedId? : Except StoreError QueueResult → Option String
  | .ok (.intent? (some i)) => some i.intentId
  | _ => none

/-- Half a millisecond apart, the second message is served first. -/
theorem same_tick_overtakes :
    Run tickQueue.step Steady .empty (twoMessages 0 500).1 (twoMessages 0 500).2
      ∧ Steady (twoMessages 0 500).1 (twoMessages 0 500).2 (leaseAt 1000)
      ∧ ¬ ServesFirst (twoMessages 0 500).1 (twoMessages 0 500).2 none
        (tickQueue.step (twoMessages 0 500).2 (leaseAt 1000)).1 := by
  refine ⟨twoMessages_run (by decide), twoMessages_steady (by decide) (by decide), ?_⟩
  intro hserves
  obtain ⟨leased, houtput, hid⟩ := hserves _ (twoMessages_first 0 500)
  have hserved : leasedId? (tickQueue.step (twoMessages 0 500).2 (leaseAt 1000)).1 = some "a" := by
    decide
  rw [houtput, leasedId?, hid] at hserved
  exact absurd hserved (by decide)

/-- A millisecond apart, they are served in order. -/
theorem next_tick_in_order :
    ServesFirst (twoMessages 0 1000).1 (twoMessages 0 1000).2 none
      (tickQueue.step (twoMessages 0 1000).2 (leaseAt 1000)).1 := by
  have hrun := @twoMessages_run 0 1000 (by decide)
  refine (arrival_order_iff hrun rfl (twoMessages_steady (by decide) (by decide)) rfl).mpr
    fun r hfirst => ⟨by decide, ?_⟩
  obtain rfl := (Arrived.of_run hrun rfl).first_unique (twoMessages_first 0 1000) hfirst
  rintro r' ⟨hr', -, -⟩ - hcreated
  rw [twoMessages_rows] at hr'
  simp only [List.mem_cons, List.not_mem_nil, or_false] at hr'
  rcases hr' with rfl | rfl
  · exact le_rfl
  · exact absurd hcreated (by decide)

end MineBot
