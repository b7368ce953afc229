import Mathlib
import MineBot.ArrivalOrder

/-!
# The two queues

`MemoryWorkIntentQueue` says of itself that it implements the same
semantics as the SQLite queue. Here both are driven side by side by the
same calls and followed record by record: the records of one and the rows
of the other stand in the same order and differ only in their ids
(`Same`). What breaks the correspondence is what the durable queue does to
its arguments and the process-local one does not: normalising texts,
bounding integers, reading `orphaned_intents`, and listing by priority.
-/

namespace MineBot

open Table

/-! ## Results up to a renaming of ids -/

def WorkIntent.rename (ρ : String → String) (i : WorkIntent) : WorkIntent :=
  { i with intentId := ρ i.intentId }

namespace QueueResult

def rename (ρ : String → String) : QueueResult → QueueResult
  | .intent i => .intent (i.rename ρ)
  | .intent? i => .intent? (i.map (·.rename ρ))
  | .intents is => .intents (is.map (·.rename ρ))
  | .count n => .count n
  | .done => .done

/-- The intents a result hands to the caller. -/
def handed : QueueResult → List WorkIntent
  | .intent i => [i]
  | .intent? i => i.toList
  | .intents is => is
  | .count _ | .done => []

end QueueResult

def handedBy {ε : Type} : Except ε QueueResult → List WorkIntent
  | .ok result => result.handed
  | .error _ => []

/-- Both refuse, or both yield the same up to `ρ`. -/
def Agree (ρ : String → String) : Except QueueError QueueResult → Except StoreError QueueResult →
    Prop
  | .ok a, .ok b => b = a.rename ρ
  | .error _, .error _ => True
  | _, _ => False

/-! ## Both queues at once -/

/-- The two queues' versions of one call, and what each draws for it. -/
structure BothInput where
  memoryCall : QueueCall WorkIntent
  rowCall : QueueCall WorkIntent
  memoryId : String
  rowId : String
  now : Nat
  later : Nat

abbrev BothOutput := Except QueueError QueueResult × Except StoreError QueueResult

abbrev BothLog := List (BothInput × BothOutput)

structure Both where
  memory : MemoryWorkIntentQueue
  store : RuntimeState

def bothStep (q : PersistentWorkIntentQueue) (b : Both) (i : BothInput) : BothOutput × Both :=
  (((b.memory.call i.memoryId i.memoryCall).1,
      (q.call b.store i.rowId i.now i.later i.rowCall).1),
    ⟨(b.memory.call i.memoryId i.memoryCall).2,
      (q.call b.store i.rowId i.now i.later i.rowCall).2⟩)

/-- The queues handed `i` and `j` out at the same place. -/
def Returned (log : BothLog) (i j : WorkIntent) : Prop :=
  ∃ e ∈ log, ∃ n : Nat, (handedBy e.2.1)[n]? = some i ∧ (handedBy e.2.2)[n]? = some j

/-- The same call on both queues. An intent that is handed back is the one
each queue returned at the same place. -/
inductive SameCall (log : BothLog) : QueueCall WorkIntent → QueueCall WorkIntent → Prop where
  | enqueue (kind : WorkIntentKind) (source : String) (payload : JsonObject)
      (dedupeKey taskId : Option String) (generation : Option Int) :
      SameCall log (.enqueue kind source payload dedupeKey taskId generation)
        (.enqueue kind source payload dedupeKey taskId generation)
  | leaseNext (kind : Option WorkIntentKind) : SameCall log (.leaseNext kind) (.leaseNext kind)
  | complete (i j : WorkIntent) : Returned log i j → SameCall log (.complete i) (.complete j)
  | fail (i j : WorkIntent) (error : JsonObject) : Returned log i j →
      SameCall log (.fail i error) (.fail j error)
  | supersedeActive (i j : WorkIntent) (reason : String) : Returned log i j →
      SameCall log (.supersedeActive i reason) (.supersedeActive j reason)
  | supersede (kinds : List WorkIntentKind) (reason : String) :
      SameCall log (.supersede kinds reason) (.supersede kinds reason)
  | bindAdmission (i j : WorkIntent) (checkpointId : Option String) (evidenceCursor : Int)
      (taskId : Option String) : Returned log i j →
      SameCall log (.bindAdmission i checkpointId evidenceCursor taskId)
        (.bindAdmission j checkpointId evidenceCursor taskId)
  | pendingCount : SameCall log .pendingCount .pendingCount
  | countForTask (kind : WorkIntentKind) (taskId : String) :
      SameCall log (.countForTask kind taskId) (.countForTask kind taskId)
  | queuedIntents (kind : Option WorkIntentKind) :
      SameCall log (.queuedIntents kind) (.queuedIntents kind)
  | getByDedupe (dedupeKey : String) :
      SameCall log (.getByDedupe dedupeKey) (.getByDedupe dedupeKey)

def QueueCall.isEnqueue {ι : Type} : QueueCall ι → Bool
  | .enqueue .. => true
  | _ => false

/-- Ids are fresh, tasks exist, the clock moves on to a new millisecond at
every `enqueue`, and no lease expires. -/
structure Allowed (log : BothLog) (b : Both) (i : BothInput) : Prop where
  same : SameCall log i.memoryCall i.rowCall
  freshMemory : i.memoryId ∉ b.memory.records.map (·.intentId)
  freshRow : i.rowId ∉ b.store.workIntents.map (·.intentId)
  clock : ∀ e ∈ log, e.1.now ≤ i.now
  ticks : i.rowCall.isEnqueue = true → ∀ e ∈ log, e.1.rowCall.isEnqueue = true →
    utcNow e.1.now < utcNow i.now
  unexpired : ∀ r ∈ b.store.workIntents, r.state = .leased → r.expired (utcNow i.now) = false
  tasks : ∀ kind source payload dedupeKey t generation,
    i.rowCall = .enqueue kind source payload dedupeKey (some t) generation →
    (b.store.tasks.any fun task => task.taskId = t) = true

/-- The row whose lease the intent still holds. -/
structure HeldRow (b : Both) (intent : WorkIntent) (r : WorkIntentRow) : Prop where
  mem : r ∈ b.store.workIntents
  intentId : r.intentId = intent.intentId
  revision : r.revision = intent.revision
  leased : r.state = .leased

/-- A startup reconciliation names its orphans in something a `for` loop
accepts. -/
def OrphansIterable (r : WorkIntentRow) : Prop :=
  r.kind = .recoveryReconcile → r.source = "startup_reconcile" →
    ∃ orphans, RuntimeState.orphanEntries r.payload = .ok orphans

/-- What a call must keep to for the queues to agree on it. -/
def Conforms (q : PersistentWorkIntentQueue) (b : Both) : QueueCall WorkIntent → Prop
  | .enqueue _ source _ dedupeKey _ generation =>
      RuntimeState.normalizedDedupe dedupeKey = dedupeKey
        ∧ (generation.map fitsInt64).getD true = true
        ∧ (requiredText source 128 = some source ∨ requiredText source 128 ≠ none
          ∧ dedupeKey ≠ none ∧ dedupeKey ∈ b.memory.records.map (·.dedupeKey))
  | .leaseNext kind =>
      b.memory.queuedIntents kind = [] ∨ requiredText q.leaseOwner 256 ≠ none
  | .bindAdmission intent checkpointId evidenceCursor taskId =>
      ∀ r, HeldRow b intent r → 0 ≤ evidenceCursor →
        RuntimeState.bindsOtherwise r.payload
          (RuntimeState.admissionEntries checkpointId evidenceCursor taskId) = false →
        requiredText q.leaseOwner 256 = some q.leaseOwner ∧ OrphansIterable r
  | .complete intent => ∀ r, HeldRow b intent r → OrphansIterable r
  | .queuedIntents none =>
      (b.memory.queuedIntents none).Pairwise fun x y => y.priority ≤ x.priority
  | _ => True

/-! ## A record and its row -/

structure Same (q : PersistentWorkIntentQueue) (ρ : String → String) (i : WorkIntent)
    (r : WorkIntentRow) : Prop where
  intent : intentFromRow r = i.rename ρ
  inScope : r.scopeKey = q.scope.key
  available : r.availableAt = r.createdAt
  ranked : i.priority = i.kind.workIntentPriority
  held : r.state = .leased → r.leaseExpiresAt.isSome = true
    ∧ ∃ owner, requiredText q.leaseOwner 256 = some owner ∧ r.leaseOwner = some owner

namespace Same

variable {q : PersistentWorkIntentQueue} {ρ : String → String} {i : WorkIntent}
variable {r : WorkIntentRow}

theorem intentId (h : Same q ρ i r) : r.intentId = ρ i.intentId := congrArg (·.intentId) h.intent

theorem revision (h : Same q ρ i r) : r.revision = i.revision := congrArg (·.revision) h.intent

theorem kind (h : Same q ρ i r) : r.kind = i.kind := congrArg (·.kind) h.intent

theorem source (h : Same q ρ i r) : r.source = i.source := congrArg (·.source) h.intent

theorem priority (h : Same q ρ i r) : r.priority = i.priority := congrArg (·.priority) h.intent

theorem payload (h : Same q ρ i r) : r.payload = i.payload := congrArg (·.payload) h.intent

theorem state (h : Same q ρ i r) : r.state = i.state := congrArg (·.state) h.intent

theorem dedupeKey (h : Same q ρ i r) : r.dedupeKey = i.dedupeKey :=
  congrArg (·.dedupeKey) h.intent

theorem taskId (h : Same q ρ i r) : r.taskId = i.taskId := congrArg (·.taskId) h.intent

theorem attemptCount (h : Same q ρ i r) : r.attemptCount = i.attemptCount :=
  congrArg (·.attemptCount) h.intent

theorem ofKind (h : Same q ρ i r) (kind : Option WorkIntentKind) :
    r.ofKind kind = i.ofKind kind := by
  cases kind <;> simp [WorkIntentRow.ofKind, WorkIntent.ofKind, h.kind]

theorem live (h : Same q ρ i r) {now : Nat} (hleased : r.state = .leased)
    (hunexpired : r.expired now = false) : r.live now = true := by
  obtain ⟨hsome, -⟩ := h.held hleased
  obtain ⟨t, ht⟩ := Option.isSome_iff_exists.mp hsome
  simpa [WorkIntentRow.live, WorkIntentRow.expired, ht] using hunexpired

/-- A change of payload on both sides. -/
theorem setPayload (h : Same q ρ i r) (payload : JsonObject) :
    Same q ρ { i with payload := payload } (r.setPayload payload) where
  intent := by
    have := congrArg (fun i : WorkIntent => { i with payload := payload }) h.intent
    exact this
  inScope := h.inScope
  available := h.available
  ranked := h.ranked
  held := h.held

/-- The end of a lease on both sides. -/
theorem finish (h : Same q ρ i r) {state : WorkIntentState} (hterm : state.terminal = true)
    (now : Nat) (error : Option JsonObject) :
    Same q ρ { i with revision := i.revision + 1, state := state } (r.finish state now error) where
  intent := by
    have := congrArg
      (fun i : WorkIntent => { i with revision := i.revision + 1, state := state }) h.intent
    exact this
  inScope := h.inScope
  available := h.available
  ranked := h.ranked
  held := fun hleased => by
    have hstate : state = .leased := hleased
    rw [hstate] at hterm
    cases hterm

theorem supersede (h : Same q ρ i r) (now : Nat) (reason : String) :
    Same q ρ { i with revision := i.revision + 1, state := .superseded }
      (r.supersede now reason) where
  intent := by
    have := congrArg (fun i : WorkIntent =>
      { i with revision := i.revision + 1, state := .superseded }) h.intent
    exact this
  inScope := h.inScope
  available := h.available
  ranked := h.ranked
  held := fun hleased => nomatch hleased

theorem markReconciled (h : Same q ρ i r) (by_ : String) : Same q ρ i (r.markReconciled by_) :=
  ⟨h.intent, h.inScope, h.available, h.ranked, h.held⟩

theorem lease (h : Same q ρ i r) {owner : String} (howner : requiredText q.leaseOwner 256 = some owner)
    (expiresAt now : Nat) :
    Same q ρ { i with
        revision := i.revision + 1, state := .leased, attemptCount := i.attemptCount + 1 }
      (r.lease owner expiresAt now) where
  intent := by
    have := congrArg (fun i : WorkIntent => { i with
      revision := i.revision + 1, state := .leased, attemptCount := i.attemptCount + 1 }) h.intent
    exact this
  inScope := h.inScope
  available := h.available
  ranked := h.ranked
  held := fun _ => ⟨rfl, owner, howner, rfl⟩

end Same

/-! ## Linked queues -/

/-- The queues hold the same records in the same order. -/
structure Linked (q : PersistentWorkIntentQueue) (ρ : String → String) (b : Both) : Prop where
  paired : List.Forall₂ (Same q ρ) b.memory.records b.store.workIntents
  keyed : Keyed (·.intentId) b.memory.records
  inj : Set.InjOn ρ {id | id ∈ b.memory.records.map (·.intentId)}

/-- What a call that adds no record does. -/
structure Kept (q : PersistentWorkIntentQueue) (ρ : String → String) (b : Both)
    (output : BothOutput) (b' : Both) : Prop where
  paired : List.Forall₂ (Same q ρ) b'.memory.records b'.store.workIntents
  ids : b'.memory.records.map (·.intentId) = b.memory.records.map (·.intentId)
  created : b'.store.workIntents.map (·.createdAt) = b.store.workIntents.map (·.createdAt)
  agree : Agree ρ output.1 output.2
  handed : ∀ i ∈ handedBy output.1, i.intentId ∈ b.memory.records.map (·.intentId)

namespace Linked

variable {q : PersistentWorkIntentQueue} {ρ : String → String} {b : Both}

/-- A call that changes neither queue. -/
theorem same (h : Linked q ρ b) {output : BothOutput} (hagree : Agree ρ output.1 output.2)
    (hhanded : ∀ i ∈ handedBy output.1, i ∈ b.memory.records) : Kept q ρ b output b :=
  ⟨h.paired, rfl, rfl, hagree, fun i hi => List.mem_map_of_mem (hhanded i hi)⟩

theorem refused (h : Linked q ρ b) (e : QueueError) (e' : StoreError) :
    Kept q ρ b (.error e, .error e') b :=
  h.same trivial fun _ hi => absurd hi List.not_mem_nil

theorem rows_ids (h : Linked q ρ b) : b.store.workIntents.map (·.intentId)
    = b.memory.records.map fun i => ρ i.intentId := by
  obtain ⟨hpaired, -, -⟩ := h
  generalize b.memory.records = is at hpaired
  generalize b.store.workIntents = rs at hpaired
  induction hpaired with
  | nil => rfl
  | cons hsame _ ih => rw [List.map_cons, List.map_cons, ih, hsame.intentId]

theorem rows_keyed (h : Linked q ρ b) : Keyed (·.intentId) b.store.workIntents := by
  rw [Keyed, h.rows_ids, ← Function.comp_def, ← List.map_map]
  exact List.Nodup.map_on (fun x hx y hy hxy => h.inj hx hy hxy) h.keyed

/-- The lease of an intent that was handed out is held on both sides or on
neither. -/
theorem token (h : Linked q ρ b) {i : WorkIntent}
    (hi : i.intentId ∈ b.memory.records.map (·.intentId)) (refusal : QueueError) :
    (∃ c r, c ∈ b.memory.records ∧ Same q ρ c r ∧ c.intentId = i.intentId
        ∧ HeldRow b (i.rename ρ) r ∧ b.memory.current i refusal = .ok c)
      ∨ ((∀ r, ¬ HeldRow b (i.rename ρ) r) ∧ b.memory.current i refusal = .error refusal) := by
  obtain ⟨c, hc, hid⟩ := List.mem_map.mp hi
  obtain ⟨r, hr, hsame⟩ := paired_of_mem_left h.paired hc
  have hget : b.memory.get i.intentId = .ok c := by
    rw [MemoryWorkIntentQueue.get, h.keyed.find?_eq_some hc (by simpa using hid)
      fun x hx => (of_decide_eq_true hx).trans hid.symm]
  have hcurrent : b.memory.current i refusal
      = if c.revision ≠ i.revision ∨ c.state ≠ .leased then .error refusal else .ok c := by
    rw [MemoryWorkIntentQueue.current, hget]
    rfl
  rw [hcurrent]
  by_cases hheld : c.revision ≠ i.revision ∨ c.state ≠ .leased
  · refine .inr ⟨fun r' hr' => ?_, if_pos hheld⟩
    obtain rfl := h.rows_keyed.unique hr hr'.mem
      (by rw [hsame.intentId, hr'.intentId, hid]; rfl)
    rcases hheld with hrev | hstate
    · exact hrev (hsame.revision.symm.trans hr'.revision)
    · exact hstate (hsame.state.symm.trans hr'.leased)
  · simp only [not_or, not_not] at hheld
    refine .inl ⟨c, r, hc, hsame, hid, ⟨hr, ?_, ?_, hsame.state.trans hheld.2⟩, if_neg ?_⟩
    · rw [hsame.intentId, hid]
      rfl
    · exact hsame.revision.trans hheld.1
    · simp [hheld]

/-- Writing a record and its row. -/
theorem put (h : Linked q ρ b) (record : WorkIntent) {c : WorkIntent} {r : WorkIntentRow}
    (hc : c ∈ b.memory.records) (hr : r ∈ b.store.workIntents) (hsame : Same q ρ c r)
    (hid : record.intentId = c.intentId) {p : WorkIntentRow → Bool}
    {f : WorkIntentRow → WorkIntentRow} (hp : p r = true)
    (honly : ∀ x, p x = true → x.intentId = r.intentId) (hnew : Same q ρ record (f r)) :
    List.Forall₂ (Same q ρ) (b.memory.put record).records
      (updateWhere p f b.store.workIntents) := by
  refine paired_updateWhere h.paired (fun x hx y hy hxy => ?_) (fun x hx y hy hxy hpy => ?_)
  · by_cases hpy : p y = true
    · rw [hpy, decide_eq_true_eq, hid]
      refine h.inj (List.mem_map_of_mem hx) (List.mem_map_of_mem hc) ?_
      rw [← hxy.intentId, ← hsame.intentId, honly y hpy]
    · rw [Bool.eq_false_iff.mpr hpy, decide_eq_false_iff_not, hid]
      intro hxc
      obtain rfl := h.rows_keyed.unique hy hr (by rw [hxy.intentId, hsame.intentId, hxc])
      exact hpy hp
  · obtain rfl := h.rows_keyed.unique hy hr (honly y hpy)
    exact hnew

theorem put_ids (record : WorkIntent) :
    (b.memory.put record).records.map (·.intentId) = b.memory.records.map (·.intentId) := by
  rw [MemoryWorkIntentQueue.put, updateWhere, List.map_map]
  refine List.map_congr_left fun i _ => ?_
  simp only [Function.comp_apply]
  split
  · next hid => exact (of_decide_eq_true hid).symm
  · rfl

end Linked

/-! ## The calls -/

section Calls

variable {q : PersistentWorkIntentQueue} {ρ : String → String} {b : Both}

theorem retireOrphans_paired {is : List WorkIntent} {rows : List WorkIntentRow}
    (hpaired : List.Forall₂ (Same q ρ) is rows) (row : WorkIntentRow) (ids : List String) :
    List.Forall₂ (Same q ρ) is (RuntimeState.retireOrphans row ids rows)
      ∧ (RuntimeState.retireOrphans row ids rows).map (·.createdAt) = rows.map (·.createdAt) := by
  induction ids generalizing rows with
  | nil => exact ⟨hpaired, rfl⟩
  | cons id ids ih =>
      obtain ⟨hpaired', hcreated⟩ := ih
        (paired_updateWhere_right hpaired fun _ _ hsame => hsame.markReconciled _)
      exact ⟨hpaired', hcreated.trans (map_key_updateWhere fun _ => rfl)⟩

/-- Retiring orphans touches nothing the queue shows. -/
theorem retire_paired {is : List WorkIntent} {rows : List WorkIntentRow} (row : WorkIntentRow)
    (payload : JsonObject) (hpaired : List.Forall₂ (Same q ρ) is rows)
    (hiter : row.kind = .recoveryReconcile → row.source = "startup_reconcile" →
      ∃ orphans, RuntimeState.orphanEntries payload = .ok orphans) :
    ∃ rows', RuntimeState.retireReconciledOrphans row payload rows = .ok rows'
      ∧ List.Forall₂ (Same q ρ) is rows'
      ∧ rows'.map (·.createdAt) = rows.map (·.createdAt) := by
  unfold RuntimeState.retireReconciledOrphans
  split
  · exact ⟨rows, rfl, hpaired, rfl⟩
  · next hkind =>
      simp only [not_or, not_not] at hkind
      obtain ⟨orphans, horphans⟩ := hiter hkind.1 hkind.2
      rw [horphans]
      exact ⟨_, rfl, retireOrphans_paired hpaired row _⟩

/-- `complete`, `fail` and `supersede_active`. -/
theorem Linked.finish (h : Linked q ρ b) {i : WorkIntent}
    (hi : i.intentId ∈ b.memory.records.map (·.intentId)) {state : WorkIntentState}
    (hterm : state.terminal = true) (error : Option JsonObject) (now : Nat)
    (hiter : state = .completed → ∀ r, HeldRow b (i.rename ρ) r → OrphansIterable r) :
    Kept q ρ b
      ((settle b.memory .intent (b.memory.finish i state)).1,
        (settle b.store (fun r => .intent (intentFromRow r)) (b.store.finishWorkIntent
          (i.rename ρ).intentId (i.rename ρ).revision state error now)).1)
      ⟨(settle b.memory .intent (b.memory.finish i state)).2,
        (settle b.store (fun r => .intent (intentFromRow r)) (b.store.finishWorkIntent
          (i.rename ρ).intentId (i.rename ρ).revision state error now)).2⟩ := by
  have hnot : (!state.terminal) = false := by rw [hterm]; rfl
  rcases h.token hi (.revisionConflict i.intentId) with
    ⟨c, r, hc, hsame, hid, hheld, hcurrent⟩ | ⟨hnone, hcurrent⟩
  · have hfind : b.store.workIntents.find? (fun r => r.intentId = (i.rename ρ).intentId
        ∧ r.revision = (i.rename ρ).revision ∧ r.state = .leased) = some r :=
      h.rows_keyed.find?_eq_some hheld.mem
        (by simp [hheld.intentId, hheld.revision, hheld.leased]) fun x hx => by
          simp only [decide_eq_true_eq] at hx
          rw [hx.1, hheld.intentId]
    have hmemory : b.memory.finish i state
        = .ok ({ c with revision := c.revision + 1, state := state },
          b.memory.put { c with revision := c.revision + 1, state := state }) := by
      rw [MemoryWorkIntentQueue.finish, hcurrent]
      rfl
    have hput := h.put { c with revision := c.revision + 1, state := state }
      (p := fun r => r.intentId = (i.rename ρ).intentId
        ∧ r.revision = (i.rename ρ).revision ∧ r.state = .leased) hc hheld.mem hsame rfl
      (by simp [hheld.intentId, hheld.revision, hheld.leased])
      (fun x hx => by
        simp only [decide_eq_true_eq] at hx
        rw [hx.1, hheld.intentId])
      (hsame.finish hterm (utcNow now) error)
    have hagree : intentFromRow (r.finish state (utcNow now) error)
        = { c with revision := c.revision + 1, state := state }.rename ρ :=
      (hsame.finish hterm (utcNow now) error).intent
    have hhanded : ∀ i' ∈ [{ c with revision := c.revision + 1, state := state }],
        i'.intentId ∈ b.memory.records.map (·.intentId) := fun i' hi' => by
      rw [List.mem_singleton.mp hi']
      exact List.mem_map_of_mem (f := (·.intentId)) hc
    simp only [RuntimeState.finishWorkIntent, hnot, hfind, hmemory]
    by_cases hdone : state = .completed
    · obtain ⟨rows, hretire, hpaired, hcreated⟩ := retire_paired
        (r.finish state (utcNow now) error) r.payload hput (hiter hdone r hheld)
      have hretire' : RuntimeState.retireReconciledOrphans (r.finish state (utcNow now) error)
        (r.finish state (utcNow now) error).payload _ = .ok rows := hretire
      rw [if_neg (by simp), if_pos hdone]
      rw [hretire']
      exact ⟨hpaired, Linked.put_ids _, hcreated.trans (map_key_updateWhere fun _ => rfl),
        congrArg QueueResult.intent hagree, hhanded⟩
    · rw [if_neg (by simp), if_neg hdone]
      exact ⟨hput, Linked.put_ids _, map_key_updateWhere fun _ => rfl,
        congrArg QueueResult.intent hagree, hhanded⟩
  · have hfind : b.store.workIntents.find? (fun r => r.intentId = (i.rename ρ).intentId
        ∧ r.revision = (i.rename ρ).revision ∧ r.state = .leased) = none :=
      List.find?_eq_none.mpr fun r hr hp => by
        simp only [decide_eq_true_eq] at hp
        exact hnone r ⟨hr, hp.1, hp.2.1, hp.2.2⟩
    have hmemory : b.memory.finish i state = .error (.revisionConflict i.intentId) := by
      rw [MemoryWorkIntentQueue.finish, hcurrent]
      rfl
    simp only [RuntimeState.finishWorkIntent, hnot, hfind, hmemory]
    exact h.refused _ _

/-- A binding leaves the orphans a payload names alone. -/
theorem orphanEntries_bound (payload : JsonObject) (checkpointId : Option String)
    (evidenceCursor : Int) (taskId : Option String) :
    RuntimeState.orphanEntries
        (payload.update (RuntimeState.admissionEntries checkpointId evidenceCursor taskId))
      = RuntimeState.orphanEntries payload := by
  rw [RuntimeState.orphanEntries, Dict.get?_update_of_get?_none]
  · rfl
  · rfl

theorem bind_refused {s : RuntimeState} {scope : RuntimeScope} {intentId leaseOwner : String}
    {revision cursor : Int} {checkpointId taskId : Option String} {now : Nat}
    (h : ∀ r, s.leasedRow scope intentId revision leaseOwner true now = some r →
      cursor < 0 ∨ RuntimeState.bindsOtherwise r.payload
        (RuntimeState.admissionEntries checkpointId cursor taskId) = true) :
    ∃ e, s.bindWorkIntentAdmission scope intentId revision leaseOwner checkpointId cursor taskId
      now = .error e := by
  simp only [RuntimeState.bindWorkIntentAdmission]
  cases hrow : s.leasedRow scope intentId revision leaseOwner true now with
  | none => exact ⟨_, rfl⟩
  | some r =>
      dsimp only
      split
      · exact ⟨_, rfl⟩
      · next hcursor =>
          rw [if_pos ((h r hrow).resolve_left hcursor)]
          exact ⟨_, rfl⟩

theorem bindAdmission_of_current {m : MemoryWorkIntentQueue} {i c : WorkIntent}
    (hcurrent : m.current i .bindingRequiresLease = .ok c) (checkpointId : Option String)
    (cursor : Int) (taskId : Option String) :
    m.bindAdmission i checkpointId cursor taskId
      = if cursor < 0 then .error .negativeCursor
        else if RuntimeState.bindsOtherwise c.payload
          (RuntimeState.admissionEntries checkpointId cursor taskId) then .error .alreadyBound
        else
          let payload := c.payload.update
            (RuntimeState.admissionEntries checkpointId cursor taskId)
          .ok ({ c with payload := payload }, m.put { c with payload := payload }) := by
  rw [MemoryWorkIntentQueue.bindAdmission, hcurrent]
  rfl

theorem Linked.bind (h : Linked q ρ b) {i : WorkIntent}
    (hi : i.intentId ∈ b.memory.records.map (·.intentId)) (checkpointId : Option String)
    (cursor : Int) (taskId : Option String) (now : Nat)
    (hunexpired : ∀ r ∈ b.store.workIntents, r.state = .leased → r.expired (utcNow now) = false)
    (hconforms : Conforms q b (.bindAdmission (i.rename ρ) checkpointId cursor taskId)) :
    Kept q ρ b
      ((settle b.memory .intent (b.memory.bindAdmission i checkpointId cursor taskId)).1,
        (settle b.store (fun r => .intent (intentFromRow r)) (b.store.bindWorkIntentAdmission
          q.scope (i.rename ρ).intentId (i.rename ρ).revision q.leaseOwner checkpointId cursor
          taskId now)).1)
      ⟨(settle b.memory .intent (b.memory.bindAdmission i checkpointId cursor taskId)).2,
        (settle b.store (fun r => .intent (intentFromRow r)) (b.store.bindWorkIntentAdmission
          q.scope (i.rename ρ).intentId (i.rename ρ).revision q.leaseOwner checkpointId cursor
          taskId now)).2⟩ := by
  have hrow : ∀ r, b.store.leasedRow q.scope (i.rename ρ).intentId (i.rename ρ).revision
      q.leaseOwner true now = some r → HeldRow b (i.rename ρ) r := fun r hr => by
    have hp := List.find?_some hr
    simp only [decide_eq_true_eq] at hp
    exact ⟨List.mem_of_find?_eq_some hr, hp.1, hp.2.2.1, hp.2.2.2.1⟩
  rcases h.token hi .bindingRequiresLease with
    ⟨c, r, hc, hsame, hid, hheld, hcurrent⟩ | ⟨hnone, hcurrent⟩
  · by_cases hrefuse : cursor < 0 ∨ RuntimeState.bindsOtherwise r.payload
        (RuntimeState.admissionEntries checkpointId cursor taskId) = true
    · obtain ⟨e, hmemory⟩ : ∃ e, b.memory.bindAdmission i checkpointId cursor taskId
          = .error e := by
        rw [bindAdmission_of_current hcurrent, ← hsame.payload]
        split
        · exact ⟨_, rfl⟩
        · next hcursor =>
            rw [if_pos (hrefuse.resolve_left hcursor)]
            exact ⟨_, rfl⟩
      obtain ⟨e', hstore⟩ := bind_refused fun r' hr' => by
        rw [h.rows_keyed.unique (hrow r' hr').mem hheld.mem
          ((hrow r' hr').intentId.trans hheld.intentId.symm)]
        exact hrefuse
      rw [hmemory, hstore]
      exact h.refused e e'
    · simp only [not_or, Bool.not_eq_true, not_lt] at hrefuse
      obtain ⟨howner, hiter⟩ := hconforms r hheld hrefuse.1 hrefuse.2
      obtain ⟨-, owner, howner', hleaseOwner⟩ := hsame.held hheld.leased
      obtain rfl : owner = q.leaseOwner := Option.some.inj (howner'.symm.trans howner)
      have hlive := hsame.live hheld.leased (hunexpired r hheld.mem hheld.leased)
      have hfind : b.store.leasedRow q.scope (i.rename ρ).intentId (i.rename ρ).revision
          q.leaseOwner true now = some r :=
        h.rows_keyed.find?_eq_some hheld.mem
          (by simp [hheld.intentId, hheld.revision, hheld.leased, hsame.inScope, hleaseOwner,
            hlive])
          fun x hx => by
            simp only [decide_eq_true_eq] at hx
            rw [hx.1, hheld.intentId]
      obtain ⟨payload, hpayload⟩ : ∃ payload, payload = r.payload.update
        (RuntimeState.admissionEntries checkpointId cursor taskId) := ⟨_, rfl⟩
      have hbound := hsame.setPayload payload
      have hput := h.put { c with payload := payload }
        (p := fun x => x.intentId = (i.rename ρ).intentId) hc hheld.mem hsame rfl
        (by simp [hheld.intentId])
        (fun x hx => (of_decide_eq_true hx).trans hheld.intentId.symm) hbound
      obtain ⟨rows, hretire, hpaired, hcreated⟩ := retire_paired r payload hput
        (by rw [hpayload, orphanEntries_bound]; exact hiter)
      have hmemory : b.memory.bindAdmission i checkpointId cursor taskId
          = .ok ({ c with payload := payload }, b.memory.put { c with payload := payload }) := by
        rw [bindAdmission_of_current hcurrent, if_neg (not_lt.mpr hrefuse.1), ← hsame.payload,
          if_neg (by simp [hrefuse.2]), hpayload]
      have hstore : b.store.bindWorkIntentAdmission q.scope (i.rename ρ).intentId
          (i.rename ρ).revision q.leaseOwner checkpointId cursor taskId now
          = .ok (r.setPayload payload, { b.store with workIntents := rows }) := by
        simp only [RuntimeState.bindWorkIntentAdmission, hfind]
        rw [if_neg (not_lt.mpr hrefuse.1), if_neg (by simp [hrefuse.2]), ← hpayload,
          RuntimeState.writePayload, hretire]
      rw [hmemory, hstore]
      refine ⟨hpaired, Linked.put_ids _, hcreated.trans (map_key_updateWhere fun _ => rfl),
        congrArg QueueResult.intent hbound.intent, fun i' hi' => ?_⟩
      rw [List.mem_singleton.mp hi']
      exact List.mem_map_of_mem (f := (·.intentId)) hc
  · have hfind : b.store.leasedRow q.scope (i.rename ρ).intentId (i.rename ρ).revision
        q.leaseOwner true now = none := by
      cases hfound : b.store.leasedRow q.scope (i.rename ρ).intentId (i.rename ρ).revision
        q.leaseOwner true now with
      | none => rfl
      | some r => exact absurd (hrow r hfound) (hnone r)
    have hmemory : b.memory.bindAdmission i checkpointId cursor taskId
        = .error .bindingRequiresLease := by
      rw [MemoryWorkIntentQueue.bindAdmission, hcurrent]
      rfl
    simp only [RuntimeState.bindWorkIntentAdmission, hfind, hmemory]
    exact h.refused _ _

/-- Where each row is created after the one before it, the service order is
the order of arrival. -/
theorem argmin_serviceKey {rows : List WorkIntentRow}
    (h : rows.Pairwise fun a b => a.createdAt < b.createdAt) :
    rows.argmin (·.serviceKey) = rows.argmin (-·.priority) := by
  induction rows with
  | nil => rfl
  | cons r rows ih =>
      obtain ⟨hfirst, hrest⟩ := List.pairwise_cons.mp h
      rw [List.argmin_cons, List.argmin_cons, ih hrest]
      cases hmin : rows.argmin (-·.priority) with
      | none => rfl
      | some c =>
          have hlt := hfirst c (List.argmin_mem hmin)
          have hiff : c.serviceKey < r.serviceKey ↔ -c.priority < -r.priority := by
            rw [← not_le, serviceKey_le]
            constructor
            · intro hnot
              simp only [not_or, not_and] at hnot
              by_contra hge
              exact hnot.2 (by omega) |>.1 hlt
            · intro hprio hle
              rcases hle with hle | ⟨heq, -⟩ <;> omega
          simp only [hiff]

theorem Linked.waiting (h : Linked q ρ b) (kind : Option WorkIntentKind) :
    List.Forall₂ (Same q ρ) (b.memory.queuedIntents kind) (waitingRows b.store kind) :=
  paired_filter h.paired fun i r hsame => by rw [hsame.state, hsame.ofKind]

theorem Linked.leaseNext (h : Linked q ρ b) (kind : Option WorkIntentKind) (now later : Nat)
    (hcreated : (b.store.workIntents.map (·.createdAt)).Pairwise (· < ·))
    (hpast : ∀ r ∈ b.store.workIntents, r.createdAt ≤ utcNow now)
    (hunexpired : ∀ r ∈ b.store.workIntents, r.state = .leased → r.expired (utcNow now) = false)
    (hconforms : Conforms q b (.leaseNext kind)) :
    Kept q ρ b
      ((b.memory.call "" (.leaseNext kind)).1, (q.call b.store "" now later (.leaseNext kind)).1)
      ⟨(b.memory.call "" (.leaseNext kind)).2,
        (q.call b.store "" now later (.leaseNext kind)).2⟩ := by
  have hready : ∀ r ∈ b.store.workIntents,
      r.scopeKey = q.scope.key ∧ r.availableAt ≤ utcNow now := fun r hr => by
    obtain ⟨i, -, hsame⟩ := paired_of_mem_right h.paired hr
    exact ⟨hsame.inScope, by rw [hsame.available]; exact hpast r hr⟩
  have hchosen := paired_argmin (h.waiting kind) (f := (-·.priority)) (g := (-·.priority))
    fun i r hsame => by rw [hsame.priority]
  have hkey : (waitingRows b.store kind).argmin (·.serviceKey)
      = (waitingRows b.store kind).argmin (-·.priority) :=
    argmin_serviceKey ((List.pairwise_map.mp hcreated).filter _)
  simp only [MemoryWorkIntentQueue.call, MemoryWorkIntentQueue.leaseNext,
    PersistentWorkIntentQueue.call, leaseNext_eq h.rows_keyed hready hunexpired, hkey]
  cases hmemory : (b.memory.queuedIntents kind).argmin (-·.priority) with
  | none =>
      rw [hmemory] at hchosen
      cases hstore : (waitingRows b.store kind).argmin (-·.priority) with
      | none =>
          show Kept q ρ b (.ok (.intent? none), .ok (.intent? none)) b
          exact h.same rfl fun _ hi => absurd hi List.not_mem_nil
      | some r => rw [hstore] at hchosen; cases hchosen
  | some c =>
      rw [hmemory] at hchosen
      cases hstore : (waitingRows b.store kind).argmin (-·.priority) with
      | none => rw [hstore] at hchosen; cases hchosen
      | some r =>
          rw [hstore] at hchosen
          cases hchosen with
          | some hsame =>
          have hc := (List.mem_filter.mp (List.argmin_mem hmemory)).1
          obtain ⟨hr, hqueued⟩ := List.mem_filter.mp (List.argmin_mem hstore)
          simp only [decide_eq_true_eq] at hqueued
          have howner : requiredText q.leaseOwner 256 ≠ none := hconforms.resolve_left fun hnil => by
            have hmem := List.argmin_mem hmemory
            rw [hnil] at hmem
            cases hmem
          obtain ⟨owner, howner⟩ := Option.ne_none_iff_exists'.mp howner
          have hleased := hsame.lease howner (utcAfter later PersistentWorkIntentQueue.leaseMicros)
            (utcNow now)
          have hput := h.put { c with
              revision := c.revision + 1, state := .leased, attemptCount := c.attemptCount + 1 }
            (p := RuntimeState.selects r) hc hr hsame rfl
            (by simp [RuntimeState.selects, hqueued.1])
            (fun x hx => by
              simp only [RuntimeState.selects, decide_eq_true_eq] at hx
              exact hx.1) hleased
          simp only [howner]
          refine ⟨hput, Linked.put_ids _, map_key_updateWhere fun _ => rfl,
            congrArg (QueueResult.intent? ∘ some) hleased.intent, fun i' hi' => ?_⟩
          rw [List.mem_singleton.mp hi']
          exact List.mem_map_of_mem (f := (·.intentId)) hc

theorem Linked.supersede (h : Linked q ρ b) (kinds : List WorkIntentKind) (reason : String)
    (now : Nat) :
    Kept q ρ b
      (.ok (.count (b.memory.supersede kinds).1),
        .ok (.count (b.store.supersedeQueuedWorkIntents q.scope kinds reason now).1))
      ⟨(b.memory.supersede kinds).2,
        (b.store.supersedeQueuedWorkIntents q.scope kinds reason now).2⟩ := by
  have hhit : ∀ i r, Same q ρ i r → decide (i.state = .queued ∧ i.kind ∈ kinds)
      = decide (r.scopeKey = q.scope.key ∧ r.state = .queued ∧ r.kind ∈ kinds) :=
    fun i r hsame => by simp [hsame.inScope, hsame.state, hsame.kind]
  refine ⟨paired_updateWhere h.paired (fun i _ r _ => hhit i r)
      (fun i _ r _ hsame _ => hsame.supersede (utcNow now) reason),
    map_key_updateWhere fun _ => rfl, map_key_updateWhere fun _ => rfl, ?_,
    fun _ hi => absurd hi List.not_mem_nil⟩
  exact congrArg QueueResult.count (paired_countP h.paired hhit).symm

theorem Linked.pendingCount (h : Linked q ρ b) :
    Kept q ρ b (.ok (.count b.memory.pendingCount),
      .ok (.count (b.store.queuedWorkIntentCount q.scope))) b :=
  h.same (congrArg QueueResult.count (paired_countP h.paired fun i r hsame => by
    simp [hsame.inScope, hsame.state]).symm) fun _ hi => absurd hi List.not_mem_nil

theorem Linked.countForTask (h : Linked q ρ b) (kind : WorkIntentKind) (taskId : String) :
    Kept q ρ b (.ok (.count (b.memory.countForTask kind taskId)),
      .ok (.count (b.store.workIntentCount q.scope kind taskId))) b :=
  h.same (congrArg QueueResult.count (paired_countP h.paired fun i r hsame => by
    simp [hsame.inScope, hsame.kind, hsame.taskId]).symm) fun _ hi => absurd hi List.not_mem_nil

/-- The first record of a dedupe key, on both sides. -/
theorem Linked.byDedupe (h : Linked q ρ b) (dedupeKey : String) :
    Option.Rel (Same q ρ) (b.memory.getByDedupe dedupeKey)
      (b.store.getWorkIntentByDedupe q.scope dedupeKey) :=
  paired_find? h.paired fun i r hsame => by simp [hsame.inScope, hsame.dedupeKey]

theorem Linked.getByDedupe (h : Linked q ρ b) (dedupeKey : String) :
    Kept q ρ b (.ok (.intent? (b.memory.getByDedupe dedupeKey)),
      .ok (.intent? ((b.store.getWorkIntentByDedupe q.scope dedupeKey).map intentFromRow))) b := by
  have hfound := h.byDedupe dedupeKey
  cases hmemory : b.memory.getByDedupe dedupeKey with
  | none =>
      rw [hmemory] at hfound
      cases hstore : b.store.getWorkIntentByDedupe q.scope dedupeKey with
      | none => exact h.same rfl fun _ hi => absurd hi List.not_mem_nil
      | some r => rw [hstore] at hfound; cases hfound
  | some i =>
      rw [hmemory] at hfound
      cases hstore : b.store.getWorkIntentByDedupe q.scope dedupeKey with
      | none => rw [hstore] at hfound; cases hfound
      | some r =>
          rw [hstore] at hfound
          cases hfound with
          | some hsame =>
          refine h.same (congrArg (QueueResult.intent? ∘ some) hsame.intent) fun i' hi' => ?_
          rw [List.mem_singleton.mp hi']
          exact List.mem_of_find?_eq_some hmemory

theorem paired_map_intent {is : List WorkIntent} {rs : List WorkIntentRow}
    (h : List.Forall₂ (Same q ρ) is rs) : rs.map intentFromRow = is.map (·.rename ρ) := by
  induction h with
  | nil => rfl
  | cons hsame _ ih => rw [List.map_cons, List.map_cons, ih, hsame.intent]

theorem paired_map_priority {is : List WorkIntent} {rs : List WorkIntentRow}
    (h : List.Forall₂ (Same q ρ) is rs) : rs.map (·.priority) = is.map (·.priority) := by
  induction h with
  | nil => rfl
  | cons hsame _ ih => rw [List.map_cons, List.map_cons, ih, hsame.priority]

/-- Intents of one kind share their priority. -/
theorem Linked.priorities (h : Linked q ρ b) (kind : Option WorkIntentKind)
    (hconforms : Conforms q b (.queuedIntents kind)) :
    ((b.memory.queuedIntents kind).map (·.priority)).Pairwise (· ≥ ·) := by
  rw [List.pairwise_map]
  cases kind with
  | none => exact hconforms
  | some k =>
      have hrank : ∀ i ∈ b.memory.queuedIntents (some k), i.priority = k.workIntentPriority := by
        intro i hi
        obtain ⟨hi, hkind⟩ := List.mem_filter.mp hi
        simp only [WorkIntent.ofKind, decide_eq_true_eq] at hkind
        obtain ⟨r, -, hsame⟩ := paired_of_mem_left h.paired hi
        rw [hsame.ranked, hkind.2]
      refine List.pairwise_of_forall_mem_list fun x hx y hy => ?_
      rw [hrank x hx, hrank y hy]

theorem Linked.queuedIntents (h : Linked q ρ b) (kind : Option WorkIntentKind)
    (hcreated : (b.store.workIntents.map (·.createdAt)).Pairwise (· < ·))
    (hconforms : Conforms q b (.queuedIntents kind)) :
    Kept q ρ b (.ok (.intents (b.memory.queuedIntents kind)),
      .ok (.intents ((b.store.listQueuedWorkIntents q.scope kind).map intentFromRow))) b := by
  have hpaired : List.Forall₂ (Same q ρ) (b.memory.queuedIntents kind)
      (b.store.workIntents.filter fun r =>
        r.scopeKey = q.scope.key ∧ r.state = .queued ∧ r.ofKind kind) :=
    paired_filter h.paired fun i r hsame => by rw [hsame.state, hsame.ofKind]; simp [hsame.inScope]
  have hpriorities := h.priorities kind hconforms
  rw [← paired_map_priority hpaired, List.pairwise_map] at hpriorities
  have hsorted : b.store.listQueuedWorkIntents q.scope kind
      = b.store.workIntents.filter fun r =>
        r.scopeKey = q.scope.key ∧ r.state = .queued ∧ r.ofKind kind := by
    refine List.Pairwise.insertionSort_eq ?_
    refine (((List.pairwise_map.mp hcreated).filter _).and hpriorities).imp ?_
    rintro x y ⟨hlt, hprio⟩
    refine serviceKey_le.mpr ?_
    omega
  rw [hsorted, paired_map_intent hpaired]
  exact h.same rfl fun i hi => (List.mem_filter.mp hi).1

/-- What an `enqueue` that adds a record does. -/
structure Added (q : PersistentWorkIntentQueue) (b : Both) (memoryId rowId : String) (now : Nat)
    (record : WorkIntent) (r : WorkIntentRow) (output : BothOutput) (b' : Both) : Prop where
  memory : b'.memory = ⟨b.memory.records ++ [record]⟩
  store : b'.store = b.store.insert r
  drawn : record.intentId = memoryId
  created : r.createdAt = utcNow now
  same : ∀ ρ : String → String, ρ memoryId = rowId → Same q ρ record r
  output : output = (.ok (.intent record), .ok (.intent (intentFromRow r)))

theorem fits_priority (kind : WorkIntentKind) : fitsInt64 kind.workIntentPriority = true := by
  cases kind <;> decide

theorem enqueue_eq (s : RuntimeState) (scope : RuntimeScope) {d : RuntimeState.WorkIntentDraft}
    {source : String} (hsource : requiredText d.source 128 = some source)
    (hpriority : fitsInt64 d.priority = true)
    (hgeneration : (d.generation.map fitsInt64).getD true = true)
    (hdedupe : RuntimeState.normalizedDedupe d.dedupeKey = d.dedupeKey) (intentId : String)
    (now : Nat) :
    s.enqueueWorkIntent scope d none intentId now
      = if s.insertable (RuntimeState.draftRow scope intentId { d with source := source }
          (utcNow now) (utcNow now)) then
          .ok (RuntimeState.draftRow scope intentId { d with source := source } (utcNow now)
            (utcNow now), s.insert (RuntimeState.draftRow scope intentId
              { d with source := source } (utcNow now) (utcNow now)))
        else match d.dedupeKey.bind (s.getWorkIntentByDedupe scope) with
          | some existing => .ok (existing, s)
          | none => .error .insertFailed := by
  simp only [RuntimeState.enqueueWorkIntent, hsource, hpriority, hgeneration, hdedupe]
  rfl

theorem enqueue_known {m : MemoryWorkIntentQueue} {dedupeKey : Option String} {i : WorkIntent}
    (h : dedupeKey.bind m.getByDedupe = some i) (kind : WorkIntentKind) (source : String)
    (payload : JsonObject) (taskId : Option String) (generation : Option Int)
    (intentId : String) :
    m.enqueue kind source payload dedupeKey taskId generation intentId = (i, m) := by
  have hfind : (dedupeKey.bind fun key => m.records.find? fun r => r.dedupeKey = some key)
    = some i := h
  rw [MemoryWorkIntentQueue.enqueue, hfind]

theorem enqueue_new {m : MemoryWorkIntentQueue} {dedupeKey : Option String}
    (h : dedupeKey.bind m.getByDedupe = none) (kind : WorkIntentKind) (source : String)
    (payload : JsonObject) (taskId : Option String) (generation : Option Int)
    (intentId : String) :
    m.enqueue kind source payload dedupeKey taskId generation intentId
      = (⟨intentId, 1, kind, source, kind.workIntentPriority, payload, .queued, dedupeKey,
          taskId, generation, 0⟩,
        ⟨m.records ++ [⟨intentId, 1, kind, source, kind.workIntentPriority, payload, .queued,
          dedupeKey, taskId, generation, 0⟩]⟩) := by
  have hfind : (dedupeKey.bind fun key => m.records.find? fun r => r.dedupeKey = some key)
    = none := h
  rw [MemoryWorkIntentQueue.enqueue, hfind]

theorem Linked.enqueue (h : Linked q ρ b) {kind : WorkIntentKind} {source : String}
    {payload : JsonObject} {dedupeKey taskId : Option String} {generation : Option Int}
    {memoryId rowId : String} {now later : Nat}
    (hrow : rowId ∉ b.store.workIntents.map (·.intentId))
    (htask : ∀ t, taskId = some t → (b.store.tasks.any fun task => task.taskId = t) = true)
    (hconforms : Conforms q b (.enqueue kind source payload dedupeKey taskId generation)) :
    (Kept q ρ b
        ((b.memory.call memoryId (.enqueue kind source payload dedupeKey taskId generation)).1,
          (q.call b.store rowId now later
            (.enqueue kind source payload dedupeKey taskId generation)).1)
        ⟨(b.memory.call memoryId (.enqueue kind source payload dedupeKey taskId generation)).2,
          (q.call b.store rowId now later
            (.enqueue kind source payload dedupeKey taskId generation)).2⟩)
      ∨ ∃ record r, Added q b memoryId rowId now record r
        ((b.memory.call memoryId (.enqueue kind source payload dedupeKey taskId generation)).1,
          (q.call b.store rowId now later
            (.enqueue kind source payload dedupeKey taskId generation)).1)
        ⟨(b.memory.call memoryId (.enqueue kind source payload dedupeKey taskId generation)).2,
          (q.call b.store rowId now later
            (.enqueue kind source payload dedupeKey taskId generation)).2⟩ := by
  obtain ⟨hdedupe, hgeneration, hsource⟩ := hconforms
  simp only [MemoryWorkIntentQueue.call, PersistentWorkIntentQueue.call]
  cases hfound : dedupeKey.bind b.memory.getByDedupe with
  | some i =>
      left
      obtain ⟨key, rfl, hi⟩ := Option.bind_eq_some_iff.mp hfound
      obtain ⟨src, hsrc⟩ : ∃ src, requiredText source 128 = some src := by
        rcases hsource with hsource | ⟨hsource, -⟩
        · exact ⟨source, hsource⟩
        · exact Option.ne_none_iff_exists'.mp hsource
      have hrel := h.byDedupe key
      rw [hi] at hrel
      cases hr : b.store.getWorkIntentByDedupe q.scope key with
      | none => rw [hr] at hrel; cases hrel
      | some r =>
          rw [hr] at hrel
          cases hrel with
          | some hsame =>
          have hblocked : b.store.insertable (RuntimeState.draftRow q.scope rowId
              ⟨kind, src, kind.workIntentPriority, payload, some key, taskId, generation⟩
              (utcNow now) (utcNow now)) = false := by
            have hkey := List.find?_some hr
            have hmem := List.mem_of_find?_eq_some hr
            simp only [decide_eq_true_eq] at hkey
            refine Bool.eq_false_iff.mpr fun hins => ?_
            simp only [RuntimeState.insertable, RuntimeState.draftRow, Bool.and_eq_true,
              List.all_eq_true] at hins
            exact of_decide_eq_true (hins.1.2 r hmem) hkey
          have hstore := enqueue_eq b.store q.scope
            (d := ⟨kind, source, kind.workIntentPriority, payload, some key, taskId, generation⟩)
            hsrc (fits_priority kind) hgeneration hdedupe rowId now
          rw [enqueue_known hfound, hstore, hblocked]
          simp only [Option.bind_some, hr]
          refine h.same (congrArg QueueResult.intent hsame.intent) fun i' hi' => ?_
          rw [List.mem_singleton.mp hi']
          exact List.mem_of_find?_eq_some hi
  | none =>
      right
      have hsrc : requiredText source 128 = some source := by
        refine hsource.resolve_right ?_
        rintro ⟨-, hkey, hknown⟩
        obtain ⟨key, rfl⟩ := Option.ne_none_iff_exists'.mp hkey
        obtain ⟨i, hi, hikey⟩ := List.mem_map.mp hknown
        exact absurd (show i.dedupeKey = some key from hikey)
          (by simpa using List.find?_eq_none.mp hfound i hi)
      have hunkeyed : ∀ key, dedupeKey = some key →
          b.store.getWorkIntentByDedupe q.scope key = none := fun key hkey => by
        have hrel := h.byDedupe key
        rw [hkey] at hfound
        rw [show b.memory.getByDedupe key = none from hfound] at hrel
        cases hr : b.store.getWorkIntentByDedupe q.scope key with
        | none => rfl
        | some r => rw [hr] at hrel; cases hrel
      have hins : b.store.insertable (RuntimeState.draftRow q.scope rowId
          ⟨kind, source, kind.workIntentPriority, payload, dedupeKey, taskId, generation⟩
          (utcNow now) (utcNow now)) = true := by
        simp only [RuntimeState.insertable, RuntimeState.draftRow, Bool.and_eq_true,
          List.all_eq_true]
        refine ⟨⟨fun r hr => ?_, ?_⟩, ?_⟩
        · exact decide_eq_true fun hid => hrow (hid ▸ List.mem_map_of_mem hr)
        · cases dedupeKey with
          | none => rfl
          | some key =>
              refine List.all_eq_true.mpr fun r hr => ?_
              have hother := List.find?_eq_none.mp (hunkeyed key rfl) r hr
              simp only [decide_eq_true_eq] at hother
              exact decide_eq_true hother
        · cases taskId with
          | none => rfl
          | some t => exact htask t rfl
      have hstore := enqueue_eq b.store q.scope
        (d := ⟨kind, source, kind.workIntentPriority, payload, dedupeKey, taskId, generation⟩)
        hsrc (fits_priority kind) hgeneration hdedupe rowId now
      rw [enqueue_new hfound, hstore, if_pos hins]
      refine ⟨_, _, rfl, rfl, rfl, rfl, fun ρ hρ => ⟨?_, rfl, rfl, rfl, ?_⟩, rfl⟩
      · simp [intentFromRow, WorkIntent.rename, RuntimeState.draftRow, hρ]
      · intro hstate
        cases hstate

end Calls

/-! ## The simulation -/

theorem WorkIntent.rename_update {ρ : String → String} {a c : String} {i : WorkIntent}
    (h : i.intentId ≠ a) : i.rename (Function.update ρ a c) = i.rename ρ := by
  rw [WorkIntent.rename, WorkIntent.rename, Function.update_of_ne h]

theorem QueueResult.rename_congr {ρ ρ' : String → String} {result : QueueResult}
    (h : ∀ i ∈ result.handed, i.rename ρ' = i.rename ρ) : result.rename ρ' = result.rename ρ := by
  cases result with
  | intent i => exact congrArg QueueResult.intent (h i List.mem_cons_self)
  | intent? i =>
      cases i with
      | none => rfl
      | some i => exact congrArg (QueueResult.intent? ∘ some) (h i List.mem_cons_self)
  | intents is => exact congrArg QueueResult.intents (List.map_congr_left h)
  | count n => rfl
  | done => rfl

theorem QueueResult.handed_rename (ρ : String → String) (result : QueueResult) :
    (result.rename ρ).handed = result.handed.map (·.rename ρ) := by
  cases result with
  | intent? i => cases i <;> rfl
  | _ => rfl

theorem Agree.rename_congr {ρ ρ' : String → String} {out : Except QueueError QueueResult}
    {out' : Except StoreError QueueResult} (h : Agree ρ out out')
    (hsame : ∀ i ∈ handedBy out, i.rename ρ' = i.rename ρ) : Agree ρ' out out' := by
  cases out with
  | error e =>
      cases out' with
      | error e' => trivial
      | ok result' => exact h.elim
  | ok result =>
      cases out' with
      | error e' => exact h.elim
      | ok result' => exact Eq.trans h (QueueResult.rename_congr hsame).symm

/-- The queues are linked, and have agreed on every call so far. -/
structure Sim (q : PersistentWorkIntentQueue) (ρ : String → String) (log : BothLog) (b : Both) :
    Prop where
  linked : Linked q ρ b
  created : (b.store.workIntents.map (·.createdAt)).Pairwise (· < ·)
  past : ∀ r ∈ b.store.workIntents,
    ∃ e ∈ log, e.1.rowCall.isEnqueue = true ∧ r.createdAt = utcNow e.1.now
  agree : ∀ e ∈ log, Agree ρ e.2.1 e.2.2
  known : ∀ e ∈ log, ∀ i ∈ handedBy e.2.1, i.intentId ∈ b.memory.records.map (·.intentId)

namespace Sim

variable {q : PersistentWorkIntentQueue} {ρ : String → String} {log : BothLog} {b b' : Both}
variable {i : BothInput} {output : BothOutput}

theorem start {s : RuntimeState} (hempty : s.workIntents = []) :
    Sim q id [] ⟨.empty, s⟩ where
  linked := ⟨by rw [hempty]; exact .nil, List.nodup_nil, by simp [MemoryWorkIntentQueue.empty]⟩
  created := by rw [hempty]; exact .nil
  past := by simp [hempty]
  agree := by simp
  known := by simp

/-- The intents of one place are one intent up to its id. -/
theorem returned (h : Sim q ρ log b) {x y : WorkIntent} (hret : Returned log x y) :
    y = x.rename ρ ∧ x.intentId ∈ b.memory.records.map (·.intentId) := by
  obtain ⟨⟨i, out, out'⟩, he, n, hx, hy⟩ := hret
  refine ⟨?_, h.known _ he x (List.mem_of_getElem? hx)⟩
  have hagree := h.agree _ he
  cases out with
  | error e => cases hx
  | ok result =>
      cases out' with
      | error e => exact hagree.elim
      | ok result' =>
          obtain rfl : result' = result.rename ρ := hagree
          dsimp only [handedBy] at hx hy
          rw [QueueResult.handed_rename, List.getElem?_map, hx] at hy
          exact (Option.some.inj hy).symm

theorem kept (h : Sim q ρ log b) (hkept : Kept q ρ b output b') :
    Sim q ρ (log ++ [(i, output)]) b' where
  linked := ⟨hkept.paired, by rw [Keyed, hkept.ids]; exact h.linked.keyed,
    by rw [hkept.ids]; exact h.linked.inj⟩
  created := by rw [hkept.created]; exact h.created
  past := fun r hr => by
    have hmem : r.createdAt ∈ b.store.workIntents.map (·.createdAt) :=
      hkept.created ▸ List.mem_map_of_mem hr
    obtain ⟨r₀, hr₀, hsame⟩ := List.mem_map.mp hmem
    obtain ⟨e, he, henq, hcreated⟩ := h.past r₀ hr₀
    exact ⟨e, List.mem_append_left _ he, henq, hsame.symm.trans hcreated⟩
  agree := fun e he => by
    rcases List.mem_append.mp he with he | he
    · exact h.agree e he
    · obtain rfl := List.mem_singleton.mp he
      exact hkept.agree
  known := fun e he x hx => by
    rw [hkept.ids]
    rcases List.mem_append.mp he with he | he
    · exact h.known e he x hx
    · obtain rfl := List.mem_singleton.mp he
      exact hkept.handed x hx

theorem added (h : Sim q ρ log b) (hok : Allowed log b i) (henq : i.rowCall.isEnqueue = true)
    {record : WorkIntent} {r : WorkIntentRow}
    (hadded : Added q b i.memoryId i.rowId i.now record r output b') :
    Sim q (Function.update ρ i.memoryId i.rowId) (log ++ [(i, output)]) b' := by
  obtain ⟨hmemory, hstore, hdrawn, hcreated, hsame, rfl⟩ := hadded
  have hold : ∀ x : WorkIntent, x.intentId ∈ b.memory.records.map (·.intentId) →
      x.rename (Function.update ρ i.memoryId i.rowId) = x.rename ρ := fun x hx =>
    WorkIntent.rename_update fun heq => hok.freshMemory (heq ▸ hx)
  have hids : b'.memory.records.map (·.intentId)
      = b.memory.records.map (·.intentId) ++ [i.memoryId] := by
    rw [hmemory, List.map_append, List.map_singleton, hdrawn]
  have hrows : b'.store.workIntents = b.store.workIntents ++ [r] := by rw [hstore]; rfl
  refine ⟨⟨?_, ?_, ?_⟩, ?_, fun r' hr' => ?_, fun e he => ?_, fun e he x hx => ?_⟩
  · rw [hmemory, hrows]
    refine List.rel_append (paired_mono h.linked.paired fun x hx y hxy => ?_)
      (.cons (hsame _ (Function.update_self ..)) .nil)
    exact { hxy with intent := hxy.intent.trans (hold x (List.mem_map_of_mem hx)).symm }
  · rw [Keyed, hids, List.nodup_append]
    refine ⟨h.linked.keyed, List.nodup_singleton _, fun a ha c hc hac => ?_⟩
    exact hok.freshMemory (List.mem_singleton.mp hc ▸ hac ▸ ha)
  · rw [hids]
    have hnew : ∀ x ∈ b.memory.records.map (·.intentId), ρ x ≠ i.rowId := fun x hx heq => by
      obtain ⟨y, hy, rfl⟩ := List.mem_map.mp hx
      refine hok.freshRow ?_
      rw [h.linked.rows_ids, ← heq]
      exact List.mem_map_of_mem (f := fun i => ρ i.intentId) hy
    have hne : ∀ x ∈ b.memory.records.map (·.intentId), x ≠ i.memoryId := fun x hx heq =>
      hok.freshMemory (heq ▸ hx)
    intro x hx y hy hxy
    simp only [Set.mem_ofPred_eq, List.mem_append, List.mem_singleton] at hx hy
    rcases hx with hx | rfl <;> rcases hy with hy | rfl
    · rw [Function.update_of_ne (hne x hx), Function.update_of_ne (hne y hy)] at hxy
      exact h.linked.inj hx hy hxy
    · rw [Function.update_of_ne (hne x hx), Function.update_self] at hxy
      exact absurd hxy (hnew x hx)
    · rw [Function.update_of_ne (hne y hy), Function.update_self] at hxy
      exact absurd hxy.symm (hnew y hy)
    · rfl
  · rw [hrows, List.map_append, List.pairwise_append]
    refine ⟨h.created, List.pairwise_singleton _ _, fun t ht t' ht' => ?_⟩
    obtain rfl := List.mem_singleton.mp ht'
    obtain ⟨r₀, hr₀, rfl⟩ := List.mem_map.mp ht
    obtain ⟨e, he, henq', hcreated'⟩ := h.past r₀ hr₀
    show r₀.createdAt < r.createdAt
    rw [hcreated', hcreated]
    exact hok.ticks henq e he henq'
  · rw [hrows] at hr'
    rcases List.mem_append.mp hr' with hr' | hr'
    · obtain ⟨e, he, henq', hcreated'⟩ := h.past r' hr'
      exact ⟨e, List.mem_append_left _ he, henq', hcreated'⟩
    · obtain rfl := List.mem_singleton.mp hr'
      exact ⟨_, List.mem_append_right _ List.mem_cons_self, henq, hcreated⟩
  · rcases List.mem_append.mp he with he | he
    · exact (h.agree e he).rename_congr fun x hx => hold x (h.known e he x hx)
    · obtain rfl := List.mem_singleton.mp he
      exact congrArg QueueResult.intent (hsame _ (Function.update_self ..)).intent
  · rw [hids]
    rcases List.mem_append.mp he with he | he
    · exact List.mem_append_left _ (h.known e he x hx)
    · obtain rfl := List.mem_singleton.mp he
      obtain rfl := List.mem_singleton.mp hx
      exact List.mem_append_right _ (List.mem_singleton.mpr hdrawn)

/-- **One call keeps the queues in step.** -/
theorem step (h : Sim q ρ log b) (hok : Allowed log b i) (hconforms : Conforms q b i.rowCall) :
    ∃ ρ', Sim q ρ' (log ++ [(i, (bothStep q b i).1)]) (bothStep q b i).2 := by
  have hlinked := h.linked
  have hpast : ∀ r ∈ b.store.workIntents, r.createdAt ≤ utcNow i.now := fun r hr => by
    obtain ⟨e, he, -, hcreated⟩ := h.past r hr
    rw [hcreated]
    exact utcNow_mono (hok.clock e he)
  have hsame := hok.same
  obtain ⟨memoryCall, rowCall, memoryId, rowId, now, later⟩ := i
  dsimp only at hsame hconforms hpast
  cases hsame with
  | enqueue kind source payload dedupeKey taskId generation =>
      have htask : ∀ t, taskId = some t →
          (b.store.tasks.any fun task => task.taskId = t) = true := by
        rintro t rfl
        exact hok.tasks kind source payload dedupeKey t generation rfl
      rcases hlinked.enqueue hok.freshRow htask hconforms with hkept | ⟨record, r, hadded⟩
      · exact ⟨ρ, h.kept hkept⟩
      · exact ⟨_, h.added hok rfl hadded⟩
  | leaseNext kind =>
      exact ⟨ρ, h.kept (hlinked.leaseNext kind now later h.created hpast hok.unexpired hconforms)⟩
  | complete x y hret =>
      obtain ⟨rfl, hx⟩ := h.returned hret
      exact ⟨ρ, h.kept (hlinked.finish hx rfl none now fun _ => hconforms)⟩
  | fail x y error hret =>
      obtain ⟨rfl, hx⟩ := h.returned hret
      exact ⟨ρ, h.kept (hlinked.finish hx rfl (some error) now nofun)⟩
  | supersedeActive x y reason hret =>
      obtain ⟨rfl, hx⟩ := h.returned hret
      exact ⟨ρ, h.kept (hlinked.finish hx rfl (some [("reason", .str reason)]) now nofun)⟩
  | supersede kinds reason => exact ⟨ρ, h.kept (hlinked.supersede kinds reason now)⟩
  | bindAdmission x y checkpointId cursor taskId hret =>
      obtain ⟨rfl, hx⟩ := h.returned hret
      exact ⟨ρ, h.kept (hlinked.bind hx checkpointId cursor taskId now hok.unexpired hconforms)⟩
  | pendingCount => exact ⟨ρ, h.kept hlinked.pendingCount⟩
  | countForTask kind taskId => exact ⟨ρ, h.kept (hlinked.countForTask kind taskId)⟩
  | queuedIntents kind => exact ⟨ρ, h.kept (hlinked.queuedIntents kind h.created hconforms)⟩
  | getByDedupe dedupeKey => exact ⟨ρ, h.kept (hlinked.getByDedupe dedupeKey)⟩

end Sim

/-- The same results in the same order, up to a one-to-one renaming of
the ids, and refusals at the same calls. -/
def SameResults (log : BothLog) : Prop :=
  ∃ ρ : String → String, Set.InjOn ρ {id | ∃ e ∈ log, ∃ i ∈ handedBy e.2.1, i.intentId = id}
    ∧ ∀ e ∈ log, Agree ρ e.2.1 e.2.2

/-- A run of both queues in which every call keeps to `Conforms`. -/
abbrev ConformingRun (q : PersistentWorkIntentQueue) (s₀ : RuntimeState) : BothLog → Both → Prop :=
  Run (bothStep q) (fun log b i => Allowed log b i ∧ Conforms q b i.rowCall) ⟨.empty, s₀⟩

/-- **The two queues are one queue** on every run in which each call
conforms. -/
theorem queues_agree {q : PersistentWorkIntentQueue} {s₀ : RuntimeState} {log : BothLog}
    {b : Both} (hrun : ConformingRun q s₀ log b) (hempty : s₀.workIntents = []) :
    SameResults log := by
  have hsim : ∃ ρ, Sim q ρ log b := by
    refine hrun.invariant (P := fun log b => ∃ ρ, Sim q ρ log b) ⟨id, .start hempty⟩ ?_
    rintro log b i - ⟨hok, hconforms⟩ ⟨ρ, h⟩
    exact h.step hok hconforms
  obtain ⟨ρ, h⟩ := hsim
  refine ⟨ρ, h.linked.inj.mono ?_, h.agree⟩
  rintro id ⟨e, he, i, hi, rfl⟩
  exact h.known e he i hi

/-! ## A dedupe key with a blank -/

/-- A message under a dedupe key, on both queues. -/
def messageUnder (dedupeKey : String) (id : String) (now : Nat) : BothInput :=
  ⟨.enqueue .message "cli" [] (some dedupeKey) none none,
    .enqueue .message "cli" [] (some dedupeKey) none none, id, id, now, now⟩

/-- A call that names no intent, on both queues. -/
def bothCall (call : QueueCall WorkIntent) (now : Nat) : BothInput := ⟨call, call, "", "", now, now⟩

theorem messageUnder_allowed {log : BothLog} {b : Both} {dedupeKey id : String} {now : Nat}
    (hmemory : id ∉ b.memory.records.map (·.intentId))
    (hrow : id ∉ b.store.workIntents.map (·.intentId)) (hclock : ∀ e ∈ log, e.1.now ≤ now)
    (hticks : ∀ e ∈ log, utcNow e.1.now < utcNow now)
    (hunexpired : ∀ r ∈ b.store.workIntents, r.state = .leased →
      r.expired (utcNow now) = false) :
    Allowed log b (messageUnder dedupeKey id now) :=
  ⟨.enqueue .., hmemory, hrow, hclock, fun _ e he _ => hticks e he, hunexpired,
    fun _ _ _ _ _ _ h => by cases h⟩

def blankKey : List BothInput :=
  [messageUnder "k" "a" 1000, messageUnder "k " "b" 2000, bothCall .pendingCount 3000]

def plainKey : List BothInput := [messageUnder "k" "a" 1000, bothCall (.leaseNext none) 2000]

theorem queues_agree_plainKey :
    SameResults (exec (bothStep tickQueue) ⟨.empty, .empty⟩ plainKey).1 := by
  refine @queues_agree tickQueue .empty _
    (exec (bothStep tickQueue) ⟨.empty, .empty⟩ plainKey).2 ?_ rfl
  exact (Run.start.next (messageUnder "k" "a" 1000) ⟨messageUnder_allowed (by decide) (by decide)
      (by decide) (by decide) (by decide), by decide, by decide, .inl (by decide)⟩).next
    (bothCall (.leaseNext none) 2000) ⟨⟨.leaseNext none, by decide, by decide, by decide,
      by decide, by decide, fun _ _ _ _ _ _ h => nomatch h⟩, Or.inr (by decide)⟩

/-- The process-local queue counts two messages, the durable one counts one. -/
theorem blank_key_counts_differ :
    Run (bothStep tickQueue) Allowed ⟨.empty, .empty⟩
        (exec (bothStep tickQueue) ⟨.empty, .empty⟩ blankKey).1
        (exec (bothStep tickQueue) ⟨.empty, .empty⟩ blankKey).2
      ∧ ¬ SameResults (exec (bothStep tickQueue) ⟨.empty, .empty⟩ blankKey).1 := by
  refine ⟨?_, ?_⟩
  · exact ((Run.start.next (messageUnder "k" "a" 1000) (messageUnder_allowed (by decide)
        (by decide) (by decide) (by decide) (by decide))).next
      (messageUnder "k " "b" 2000) (messageUnder_allowed (by decide) (by decide) (by decide)
        (by decide) (by decide))).next
      (bothCall .pendingCount 3000) ⟨.pendingCount, by decide, by decide, by decide, by decide,
        by decide, fun _ _ _ _ _ _ h => nomatch h⟩
  · rintro ⟨ρ, -, hagree⟩
    have hcounts : Agree ρ (.ok (.count 2)) (.ok (.count 1)) :=
      hagree _ (.tail _ (.tail _ (.head _)))
    exact absurd hcounts (by simp [Agree, QueueResult.rename])

end MineBot
