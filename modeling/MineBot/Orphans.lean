import MineBot.LedgerSteps
import MineBot.WorkQueue

/-!
# Orphaned work

A process may die between any two calls; the next one starts by failing
every leased intent with the restart reason and reporting it, together
with what earlier starts left unreconciled (`orphaned_intents`). The mark
of an orphan is the error itself, so here it is followed through a run:
which calls make an intent an orphan, which take it over, and that the
ledger's rows say so at every point.
-/

namespace MineBot

open Table Relation

/-! ## What makes and unmakes an orphan -/

/-- The error of an orphan nobody has reconciled. -/
def restartError (error : Option JsonObject) : Bool :=
  match error with
  | some e => e.get? "reason" = some (.str RuntimeState.restartReason)
      && (e.get? "reconciled_by" = none || e.get? "reconciled_by" = some .null)
  | none => false

/-- A startup reconciliation that names the intent among its orphans. -/
def Names (r : WorkIntentRow) (id : String) : Prop :=
  r.kind = .recoveryReconcile ∧ r.source = "startup_reconcile"
    ∧ ∃ orphans, RuntimeState.orphanEntries r.payload = .ok orphans
      ∧ id ∈ orphans.filterMap RuntimeState.orphanId?

/-- A recovery takes the intent over: a startup reconciliation that names
it is bound, or finished as completed. -/
def TakesOver (id : String) : LedgerOp × LedgerOutput → Prop
  | (.bind .., .ok (.row r)) => Names r id
  | (.finish _ _ .completed _ _, .ok (.row r)) => Names r id
  | _ => False

def LeasedIn (rows : List WorkIntentRow) (id : String) : Prop :=
  ∃ r ∈ rows, r.intentId = id ∧ r.state = .leased

/-- The rows hold the intent as an unreconciled orphan. -/
def OrphanIn (rows : List WorkIntentRow) (id : String) : Prop :=
  ∃ r ∈ rows, r.intentId = id ∧ r.orphaned RuntimeState.restartReason = true

/-- Calls of one scope. A start is the call of `abandon`, with its
default reason. -/
def LedgerOp.within (scope : RuntimeScope) : LedgerOp → Prop
  | .enqueue scope' .. => scope' = scope
  | .issueContinuation scope' .. => scope' = scope
  | .leaseNext scope' .. => scope' = scope
  | .bind scope' .. => scope' = scope
  | .reserve scope' .. => scope' = scope
  | .confirm scope' .. => scope' = scope
  | .reconcile scope' .. => scope' = scope
  | .finish .. => True
  | .supersede scope' .. => scope' = scope
  | .abandon scope' reason _ => scope' = scope ∧ reason = RuntimeState.restartReason
  | .environment .. => True

/-- Process lifetimes over one scope: the calls of each, with a start
wherever one has ended. -/
abbrev LifetimeRun (scope : RuntimeScope) : LedgerLog → RuntimeState → Prop :=
  Run ledgerStep (fun _ _ op => op.within scope) .empty

/-- After `pre`, this entry makes the intent an orphan: a start finds it
leased, or its holder fails it with the restart reason. -/
def Orphans (scope : RuntimeScope) (pre : LedgerLog) (id : String) :
    LedgerOp × LedgerOutput → Prop
  | (.abandon .., .ok _) => ∃ s, LifetimeRun scope pre s ∧ LeasedIn s.workIntents id
  | (.finish intentId _ .failed error _, .ok _) => intentId = id ∧ restartError error = true
  | _ => False

/-- The intent became an orphan, and no recovery has taken it over since. -/
def OrphanSince (scope : RuntimeScope) (log : LedgerLog) (id : String) : Prop :=
  ∃ pre entry post, log = pre ++ entry :: post ∧ Orphans scope pre id entry
    ∧ ∀ e ∈ post, ¬ TakesOver id e

theorem orphanSince_append_singleton {scope : RuntimeScope} {log : LedgerLog} {id : String}
    (e : LedgerOp × LedgerOutput) : OrphanSince scope (log ++ [e]) id ↔
      Orphans scope log id e ∨ OrphanSince scope log id ∧ ¬ TakesOver id e := by
  constructor
  · rintro ⟨pre, entry, post, hlog, horphans, hnone⟩
    rcases List.eq_nil_or_concat post with rfl | ⟨post', e', rfl⟩
    · obtain ⟨rfl, he⟩ := List.append_inj' hlog rfl
      obtain rfl := (List.cons.inj he).1
      exact .inl horphans
    · rw [List.concat_eq_append] at hlog hnone
      rw [← List.cons_append, ← List.append_assoc] at hlog
      obtain ⟨rfl, he⟩ := List.append_inj' hlog rfl
      obtain rfl := (List.cons.inj he).1
      exact .inr ⟨⟨pre, entry, post', rfl, horphans,
        fun x hx => hnone x (List.mem_append_left _ hx)⟩,
        hnone e (List.mem_append_right _ List.mem_cons_self)⟩
  · rintro (horphans | ⟨⟨pre, entry, post, rfl, horphans, hnone⟩, htakes⟩)
    · exact ⟨log, e, [], rfl, horphans, by simp⟩
    · refine ⟨pre, entry, post ++ [e], by simp, horphans, fun x hx => ?_⟩
      rcases List.mem_append.mp hx with hx | hx
      · exact hnone x hx
      · rw [List.mem_singleton.mp hx]
        exact htakes

/-! ## What the updates do to orphans -/

section Rows

variable {rows : List WorkIntentRow} {id : String}

theorem orphanIn_updateWhere {p : WorkIntentRow → Bool} {f : WorkIntentRow → WorkIntentRow}
    (hid : ∀ r, (f r).intentId = r.intentId)
    (hsame : ∀ r ∈ rows, p r = true → (f r).orphaned RuntimeState.restartReason
      = r.orphaned RuntimeState.restartReason) :
    OrphanIn (updateWhere p f rows) id ↔ OrphanIn rows id := by
  constructor
  · rintro ⟨r', hr', hrid, horphaned⟩
    obtain ⟨r, hr, rfl⟩ := mem_updateWhere.mp hr'
    split at hrid
    · next hp =>
        rw [if_pos hp, hsame r hr hp] at horphaned
        exact ⟨r, hr, (hid r).symm.trans hrid, horphaned⟩
    · next hp =>
        rw [if_neg hp] at horphaned
        exact ⟨r, hr, hrid, horphaned⟩
  · rintro ⟨r, hr, hrid, horphaned⟩
    by_cases hp : p r = true
    · exact ⟨f r, mem_updateWhere_of hr hp, (hid r).trans hrid, by rwa [hsame r hr hp]⟩
    · exact ⟨r, mem_updateWhere_of_not hr (Bool.eq_false_iff.mpr hp), hrid, horphaned⟩

theorem orphaned_eq (r : WorkIntentRow) : r.orphaned RuntimeState.restartReason
    = (decide (r.state = .failed) && restartError r.error) := rfl

theorem orphaned_of_state {r : WorkIntentRow} (h : r.state ≠ .failed) :
    r.orphaned RuntimeState.restartReason = false := by
  simp [orphaned_eq, h]

theorem not_orphaned_marked (r : WorkIntentRow) (by_ : String) :
    (r.markReconciled by_).orphaned RuntimeState.restartReason = false := by
  rw [orphaned_eq]
  cases herror : r.error with
  | none => simp [WorkIntentRow.markReconciled, restartError, herror]
  | some e => simp [WorkIntentRow.markReconciled, restartError, herror]

theorem orphanIn_writePayload (intentId : String) (payload : JsonObject) :
    OrphanIn (RuntimeState.writePayload intentId payload rows) id ↔ OrphanIn rows id :=
  orphanIn_updateWhere (fun _ => rfl) fun _ _ _ => rfl

/-- Updates that end leases: what they leave behind as an orphan. -/
theorem orphanIn_finish {p : WorkIntentRow → Bool} {state : WorkIntentState} {now : Nat}
    {error : Option JsonObject} (hp : ∀ r, p r = true → r.state = .leased) :
    OrphanIn (updateWhere p (·.finish state now error) rows) id
      ↔ OrphanIn rows id ∨ (∃ r ∈ rows, p r = true ∧ r.intentId = id)
        ∧ state = .failed ∧ restartError error = true := by
  constructor
  · rintro ⟨r', hr', hrid, horphaned⟩
    obtain ⟨r, hr, rfl⟩ := mem_updateWhere.mp hr'
    by_cases hpr : p r = true
    · rw [if_pos hpr] at hrid horphaned
      simp only [orphaned_eq, Bool.and_eq_true, decide_eq_true_eq] at horphaned
      exact .inr ⟨⟨r, hr, hpr, hrid⟩, horphaned⟩
    · rw [if_neg hpr] at hrid horphaned
      exact .inl ⟨r, hr, hrid, horphaned⟩
  · rintro (⟨r, hr, hrid, horphaned⟩ | ⟨⟨r, hr, hpr, hrid⟩, hstate, herror⟩)
    · have hpr : p r = false := Bool.eq_false_iff.mpr fun hpr => by
        rw [orphaned_of_state (by rw [hp r hpr]; decide)] at horphaned
        cases horphaned
      exact ⟨r, mem_updateWhere_of_not hr hpr, hrid, horphaned⟩
    · exact ⟨_, mem_updateWhere_of hr hpr, hrid, by
        rw [orphaned_eq]
        simp [WorkIntentRow.finish, hstate, herror]⟩

theorem orphanIn_retireOrphans {row : WorkIntentRow} (ids : List String)
    (hscope : ∀ r ∈ rows, r.scopeKey = row.scopeKey) :
    OrphanIn (RuntimeState.retireOrphans row ids rows) id ↔ OrphanIn rows id ∧ id ∉ ids := by
  induction ids generalizing rows with
  | nil => simp [RuntimeState.retireOrphans]
  | cons orphanId ids ih =>
      rw [RuntimeState.retireOrphans, ih]
      · have hone : OrphanIn (updateWhere (fun r => r.intentId = orphanId
            ∧ r.scopeKey = row.scopeKey ∧ r.orphaned RuntimeState.restartReason)
            (·.markReconciled row.intentId) rows) id ↔ OrphanIn rows id ∧ id ≠ orphanId := by
          constructor
          · rintro ⟨r', hr', hrid, horphaned⟩
            obtain ⟨r, hr, rfl⟩ := mem_updateWhere.mp hr'
            split at hrid
            · next hp =>
                rw [if_pos hp, not_orphaned_marked] at horphaned
                cases horphaned
            · next hp =>
                rw [if_neg hp] at horphaned
                refine ⟨⟨r, hr, hrid, horphaned⟩, fun hid => hp ?_⟩
                simp [hrid, hid, hscope r hr, horphaned]
          · rintro ⟨⟨r, hr, hrid, horphaned⟩, hne⟩
            refine ⟨r, mem_updateWhere_of_not hr ?_, hrid, horphaned⟩
            simp [hrid, hne]
        rw [hone]
        simp [and_assoc]
      · intro r' hr'
        obtain ⟨r, hr, rfl⟩ := mem_updateWhere.mp hr'
        split
        · exact hscope r hr
        · exact hscope r hr

/-- Retiring takes over exactly what the payload names. -/
theorem orphanIn_retire {row : WorkIntentRow} {payload : JsonObject}
    {rows' : List WorkIntentRow}
    (h : RuntimeState.retireReconciledOrphans row payload rows = .ok rows')
    (hscope : ∀ r ∈ rows, r.scopeKey = row.scopeKey) :
    OrphanIn rows' id ↔ OrphanIn rows id ∧ ¬ Names (row.setPayload payload) id := by
  unfold RuntimeState.retireReconciledOrphans at h
  split at h
  · next hkind =>
      cases h
      have hnot : ¬ Names (row.setPayload payload) id := fun ⟨hk, hs, _⟩ =>
        hkind.elim (fun hne => hne hk) fun hne => hne hs
      simp [hnot]
  · next hkind =>
      simp only [not_or, not_not] at hkind
      cases he : RuntimeState.orphanEntries payload with
      | error e => rw [he] at h; cases h
      | ok orphans =>
          rw [he] at h
          obtain rfl := Except.ok.inj h
          rw [orphanIn_retireOrphans _ hscope]
          have hnames : Names (row.setPayload payload) id
              ↔ id ∈ orphans.filterMap RuntimeState.orphanId? := by
            constructor
            · rintro ⟨-, -, orphans', he', hmem⟩
              obtain rfl := Except.ok.inj (he'.symm.trans he)
              exact hmem
            · intro hmem
              exact ⟨hkind.1, hkind.2, orphans, he, hmem⟩
          rw [hnames]

end Rows

/-! ## One call -/

/-- The ledger's rows are of one scope and hold the orphans of the run. -/
structure Tracked (scope : RuntimeScope) (log : LedgerLog) (s : RuntimeState) : Prop where
  keyed : Keyed (·.intentId) s.workIntents
  inScope : ∀ r ∈ s.workIntents, r.scopeKey = scope.key
  orphans : ∀ id, OrphanSince scope log id ↔ OrphanIn s.workIntents id

section Step

variable {scope : RuntimeScope} {log : LedgerLog} {s s' : RuntimeState} {id : String}

theorem drafts_scope {op : LedgerOp} (hop : op.within scope) {r : WorkIntentRow}
    (h : op.Drafts r) : r.scopeKey = scope.key := by
  cases op with
  | enqueue =>
      obtain ⟨_, rfl⟩ := h
      exact congrArg RuntimeScope.key hop
  | issueContinuation =>
      obtain ⟨_, _, rfl⟩ := h
      exact congrArg RuntimeScope.key hop
  | _ => exact h.elim

theorem orphanIn_insert {r : WorkIntentRow} (h : r.state = .queued) :
    OrphanIn (s.insert r).workIntents id ↔ OrphanIn s.workIntents id := by
  have hnot := orphaned_of_state (r := r) (by rw [h]; decide)
  constructor
  · rintro ⟨r', hr', hid, horphaned⟩
    rcases List.mem_append.mp hr' with hr' | hr'
    · exact ⟨r', hr', hid, horphaned⟩
    · rw [List.mem_singleton.mp hr', hnot] at horphaned
      cases horphaned
  · rintro ⟨r', hr', hid, horphaned⟩
    exact ⟨r', List.mem_append_left _ hr', hid, horphaned⟩

theorem orphanIn_lease {leaseOwner : String} {leaseMicros : Nat}
    {kind : Option WorkIntentKind} {now later : Nat} {res : Option WorkIntentRow}
    (h : s.leaseNextWorkIntent scope leaseOwner leaseMicros kind now later = .ok (res, s')) :
    OrphanIn s'.workIntents id ↔ OrphanIn s.workIntents id := by
  have hrequeue : OrphanIn (s.requeueExpired scope kind (utcNow now)) id
      ↔ OrphanIn s.workIntents id := by
    refine orphanIn_updateWhere (fun _ => rfl) fun r _ hp => ?_
    simp only [decide_eq_true_eq] at hp
    rw [orphaned_of_state (r := r) (by rw [hp.2.1]; decide)]
    exact orphaned_of_state (by simp [WorkIntentRow.requeue])
  rcases leaseNext_spec h with ⟨-, rfl, -⟩ | ⟨row, owner, -, -, -, rfl⟩
  · exact hrequeue
  · refine Iff.trans (orphanIn_updateWhere (fun _ => rfl) fun r _ hp => ?_) hrequeue
    simp only [RuntimeState.selects, decide_eq_true_eq] at hp
    rw [orphaned_of_state (r := r) (by rw [hp.2.2]; decide)]
    exact orphaned_of_state (by simp [WorkIntentRow.lease])

theorem orphanIn_bind {intentId leaseOwner : String} {revision cursor : Int}
    {checkpointId taskId : Option String} {now : Nat} {r : WorkIntentRow}
    (hscope : ∀ r ∈ s.workIntents, r.scopeKey = scope.key)
    (h : s.bindWorkIntentAdmission scope intentId revision leaseOwner checkpointId cursor
      taskId now = .ok (r, s')) :
    OrphanIn s'.workIntents id ↔ OrphanIn s.workIntents id ∧ ¬ Names r id := by
  obtain ⟨row, rows, payload, hrow, -, -, hretire, rfl, rfl⟩ := bind_inv h
  rw [orphanIn_retire hretire, orphanIn_writePayload]
  intro r' hr'
  obtain ⟨r, hr, rfl⟩ := mem_updateWhere.mp hr'
  rw [(leasedRow_spec hrow).2.2.1]
  split
  · exact hscope r hr
  · exact hscope r hr

theorem orphanIn_reconcile {intentId leaseOwner : String} {revision : Int} {state : BodyState}
    {now : Nat} {u : Unit}
    (h : s.reconcileRecovery scope intentId revision leaseOwner state now = .ok (u, s')) :
    OrphanIn s'.workIntents id ↔ OrphanIn s.workIntents id := by
  obtain ⟨row, -, rfl | ⟨settlement, -, rfl⟩⟩ := reconcile_inv h
  · rfl
  · have hsettle : OrphanIn (RuntimeState.writeSettlement settlement s.workIntents) id
        ↔ OrphanIn s.workIntents id := by
      unfold RuntimeState.writeSettlement
      split
      · exact orphanIn_writePayload ..
      · rfl
    dsimp only
    split
    · exact hsettle
    · rw [orphanIn_writePayload, hsettle]

theorem orphanIn_finishIntent {intentId : String} {revision : Int} {state : WorkIntentState}
    {error : Option JsonObject} {now : Nat} {r : WorkIntentRow}
    (hscope : ∀ r ∈ s.workIntents, r.scopeKey = scope.key)
    (h : s.finishWorkIntent intentId revision state error now = .ok (r, s')) :
    OrphanIn s'.workIntents id
      ↔ (state = .failed ∧ intentId = id ∧ restartError error = true)
        ∨ OrphanIn s.workIntents id ∧ ¬ (state = .completed ∧ Names r id) := by
  obtain ⟨row, rows, -, hrow, rfl, hrows, rfl⟩ := finish_inv h
  obtain ⟨hmem, hid, -, -⟩ := finishToken_spec hrow
  have hheld : ∀ r, finishToken intentId revision r = true → r.state = .leased := by
    intro r hp
    simp only [finishToken, decide_eq_true_eq] at hp
    exact hp.2.2
  have hupdate := @orphanIn_finish s.workIntents id _ state (utcNow now) error hheld
  have hended : (∃ r ∈ s.workIntents, finishToken intentId revision r = true ∧ r.intentId = id)
      ↔ intentId = id := by
    constructor
    · rintro ⟨r, -, hp, rfl⟩
      simp only [finishToken, decide_eq_true_eq] at hp
      exact hp.1.symm
    · rintro rfl
      exact ⟨row, hmem, List.find?_some hrow, hid⟩
  rw [hended] at hupdate
  dsimp only
  split at hrows
  · next hdone =>
      rw [orphanIn_retire hrows, hupdate]
      · have hnames : Names ((row.finish state (utcNow now) error).setPayload
            (row.finish state (utcNow now) error).payload) id
            ↔ Names (row.finish state (utcNow now) error) id := Iff.rfl
        rw [hnames, hdone]
        simp
      · intro r' hr'
        obtain ⟨r, hr, rfl⟩ := mem_updateWhere.mp hr'
        show _ = row.scopeKey
        rw [hscope row hmem]
        split
        · exact hscope r hr
        · exact hscope r hr
  · next hdone =>
      rw [hrows, hupdate]
      simp only [hdone, false_and, not_false_eq_true, and_true]
      tauto

/-- A call that neither makes nor takes over orphans. -/
theorem orphanIn_quiet {entry : LedgerOp × LedgerOutput} {rows rows' : List WorkIntentRow}
    (horphans : ¬ Orphans scope log id entry) (htakes : ¬ TakesOver id entry)
    (h : OrphanIn rows' id ↔ OrphanIn rows id) :
    OrphanIn rows' id ↔ Orphans scope log id entry ∨ OrphanIn rows id ∧ ¬ TakesOver id entry := by
  rw [h]
  simp [horphans, htakes]

/-- **What one call does to the orphans.** -/
theorem orphanIn_step (h : Tracked scope log s) (hrun : LifetimeRun scope log s) {op : LedgerOp}
    (hop : op.within scope) : OrphanIn (ledgerStep s op).2.workIntents id
      ↔ Orphans scope log id (op, (ledgerStep s op).1)
        ∨ OrphanIn s.workIntents id ∧ ¬ TakesOver id (op, (ledgerStep s op).1) := by
  cases op with
  | enqueue scope' draft availableAt intentId now =>
      simp only [ledgerStep]
      rcases hres : s.enqueueWorkIntent scope' draft availableAt intentId now with e | ⟨r, s'⟩
      · exact orphanIn_quiet False.elim False.elim .rfl
      · refine orphanIn_quiet False.elim False.elim ?_
        rcases enqueue_spec hres with ⟨_, hr, -, rfl⟩ | ⟨-, rfl⟩
        · exact orphanIn_insert (hr ▸ rfl)
        · exact .rfl
  | issueContinuation scope' checkpointId rev taskId gen kind source priority payload dedupe
      intentId now =>
      simp only [ledgerStep]
      rcases hres : s.issueCheckpointContinuation scope' checkpointId rev taskId gen kind source
        priority payload dedupe intentId now with e | ⟨r, s'⟩
      · exact orphanIn_quiet False.elim False.elim .rfl
      · refine orphanIn_quiet False.elim False.elim ?_
        rcases issue_spec hres with ⟨_, _, r, hr, -, -, rfl⟩ | ⟨-, rfl⟩
        · exact orphanIn_insert (hr ▸ rfl)
        · exact .rfl
  | leaseNext scope' leaseOwner leaseMicros kind now later =>
      simp only [ledgerStep]
      rcases hres : s.leaseNextWorkIntent scope' leaseOwner leaseMicros kind now later
        with e | ⟨r, s'⟩
      · exact orphanIn_quiet False.elim False.elim .rfl
      · exact orphanIn_quiet False.elim False.elim (orphanIn_lease hres)
  | bind scope' intentId revision leaseOwner checkpointId cursor taskId now =>
      obtain rfl : scope' = scope := hop
      simp only [ledgerStep]
      rcases hres : s.bindWorkIntentAdmission scope' intentId revision leaseOwner checkpointId
        cursor taskId now with e | ⟨r, s'⟩
      · exact orphanIn_quiet False.elim False.elim .rfl
      · exact (orphanIn_bind h.inScope hres).trans (by simp [commit, Orphans, TakesOver])
  | reserve scope' intentId revision leaseOwner maxAttempts now =>
      simp only [ledgerStep]
      rcases hres : s.reserveRecoveryAttempt scope' intentId revision leaseOwner maxAttempts now
        with e | ⟨r, s'⟩
      · exact orphanIn_quiet False.elim False.elim .rfl
      · obtain ⟨row, admission, -, -, -, rfl⟩ := reserve_inv hres
        exact orphanIn_quiet False.elim False.elim (orphanIn_writePayload ..)
  | confirm scope' intentId revision leaseOwner now =>
      simp only [ledgerStep]
      rcases hres : s.confirmRecovery scope' intentId revision leaseOwner now with e | ⟨r, s'⟩
      · exact orphanIn_quiet False.elim False.elim .rfl
      · obtain ⟨row, payload, -, -, -, rfl⟩ := confirm_inv hres
        exact orphanIn_quiet False.elim False.elim (orphanIn_writePayload ..)
  | reconcile scope' intentId revision leaseOwner state now =>
      simp only [ledgerStep]
      rcases hres : s.reconcileRecovery scope' intentId revision leaseOwner state now
        with e | ⟨r, s'⟩
      · exact orphanIn_quiet False.elim False.elim .rfl
      · exact orphanIn_quiet False.elim False.elim (orphanIn_reconcile hres)
  | finish intentId revision state error now =>
      simp only [ledgerStep]
      rcases hres : s.finishWorkIntent intentId revision state error now with e | ⟨r, s'⟩
      · refine orphanIn_quiet ?_ ?_ .rfl
        · cases state <;> exact False.elim
        · cases state <;> exact False.elim
      · rw [show (commit s LedgerResult.row (.ok (r, s'))).2 = s' from rfl,
          orphanIn_finishIntent h.inScope hres]
        cases state <;> simp [commit, Orphans, TakesOver]
  | supersede scope' kinds reason now =>
      refine orphanIn_quiet False.elim False.elim (orphanIn_updateWhere (fun _ => rfl) fun r _ hp => ?_)
      simp only [decide_eq_true_eq] at hp
      rw [orphaned_of_state (r := r) (by rw [hp.2.1]; decide)]
      exact orphaned_of_state (by simp [WorkIntentRow.supersede])
  | abandon scope' reason now =>
      obtain ⟨rfl, rfl⟩ := hop
      simp only [ledgerStep, abandon_eq]
      have hleased : (∃ s', LifetimeRun scope' log s' ∧ LeasedIn s'.workIntents id)
          ↔ LeasedIn s.workIntents id := by
        constructor
        · rintro ⟨s', hrun', hleased⟩
          exact hrun.state_unique hrun' ▸ hleased
        · exact fun hleased => ⟨s, hrun, hleased⟩
      have hheld : ∀ r : WorkIntentRow, decide (r.scopeKey = scope'.key ∧ r.state = .leased) = true →
          r.state = .leased := by
        intro r hp
        exact (of_decide_eq_true hp).2
      have hupdate := @orphanIn_finish s.workIntents id _ .failed (utcNow now)
        (some [("reason", .str RuntimeState.restartReason)]) hheld
      have hended : (∃ r ∈ s.workIntents,
          decide (r.scopeKey = scope'.key ∧ r.state = .leased) = true ∧ r.intentId = id)
          ↔ LeasedIn s.workIntents id := by
        constructor
        · rintro ⟨r, hr, hp, hid⟩
          simp only [decide_eq_true_eq] at hp
          exact ⟨r, hr, hid, hp.2⟩
        · rintro ⟨r, hr, hid, hs⟩
          exact ⟨r, hr, by simp [h.inScope r hr, hs], hid⟩
      have hreason : restartError (some [("reason", .str RuntimeState.restartReason)]) = true := by
        decide
      refine hupdate.trans ?_
      rw [hended, ← hleased]
      simp only [hreason, and_true]
      exact (or_comm.trans (or_congr_right (by simp [TakesOver])))
  | environment tasks checkpoints => exact orphanIn_quiet False.elim False.elim .rfl

theorem Tracked.start : Tracked scope [] .empty where
  keyed := List.nodup_nil
  inScope := by simp [RuntimeState.empty]
  orphans := fun id => by simp [OrphanSince, OrphanIn, RuntimeState.empty]

theorem Tracked.step (h : Tracked scope log s) (hrun : LifetimeRun scope log s) {op : LedgerOp}
    (hop : op.within scope) :
    Tracked scope (log ++ [(op, (ledgerStep s op).1)]) (ledgerStep s op).2 where
  keyed := (ledgerStep_outcome s op).evolves.keyed h.keyed
  inScope := by
    rcases (ledgerStep_outcome s op).rows with hmoves | ⟨r, hdrafts, -, hstate⟩
    · intro r' hr'
      obtain ⟨r, hr, hpath⟩ := hmoves.origin hr'
      rw [(later_of_path hpath).scopeKey]
      exact h.inScope r hr
    · rw [hstate]
      intro r' hr'
      rcases List.mem_append.mp hr' with hr' | hr'
      · exact h.inScope r' hr'
      · rw [List.mem_singleton.mp hr']
        exact drafts_scope hop hdrafts
  orphans := fun id => by
    rw [orphanSince_append_singleton, orphanIn_step h hrun hop, h.orphans]

theorem LifetimeRun.tracked (h : LifetimeRun scope log s) : Tracked scope log s :=
  h.invariant .start fun _ _ _ hrun hop ih => ih.step hrun hop

end Step

/-! ## Settled intents -/

section Settled

variable {scope : RuntimeScope} {pre post : LedgerLog} {s s' : RuntimeState} {id : String}

/-- The intent is over. -/
def SettledIn (rows : List WorkIntentRow) (id : String) : Prop :=
  ∃ r ∈ rows, r.intentId = id ∧ r.state.terminal = true

theorem SettledIn.not_leased {rows : List WorkIntentRow} (hkeyed : Keyed (·.intentId) rows)
    (h : SettledIn rows id) : ¬ LeasedIn rows id := by
  obtain ⟨r, hr, hid, hterm⟩ := h
  rintro ⟨r', hr', hid', hs⟩
  obtain rfl := hkeyed.unique hr hr' (hid.trans hid'.symm)
  rw [hs] at hterm
  cases hterm

theorem SettledIn.step (h : SettledIn s.workIntents id) (op : LedgerOp) :
    SettledIn (ledgerStep s op).2.workIntents id := by
  obtain ⟨r, hr, hid, hterm⟩ := h
  obtain ⟨r', hr', hpath⟩ := (ledgerStep_outcome s op).evolves.kept hr
  have hlater := later_of_path hpath
  exact ⟨r', hr', hlater.intentId.trans hid, by rw [(hlater.frozen hterm).1]; exact hterm⟩

theorem SettledIn.of_leads {ok : LedgerLog → RuntimeState → LedgerOp → Prop}
    (h : Leads ledgerStep ok pre s post s') (hsettled : SettledIn s.workIntents id) :
    SettledIn s'.workIntents id := by
  induction h with
  | done => exact hsettled
  | next op _ _ ih => exact ih (hsettled.step op)

/-- Nothing makes an orphan of an intent that is over. -/
theorem SettledIn.not_orphans {log : LedgerLog} (h : SettledIn s.workIntents id)
    (hrun : LifetimeRun scope log s) (op : LedgerOp) :
    ¬ Orphans scope log id (op, (ledgerStep s op).1) := by
  have hfree := h.not_leased hrun.tracked.keyed
  intro horphans
  cases op with
  | abandon scope' reason now =>
      simp only [ledgerStep, abandon_eq] at horphans
      obtain ⟨s', hrun', hleased⟩ := horphans
      exact hfree (hrun.state_unique hrun' ▸ hleased)
  | finish intentId revision state error now =>
      simp only [ledgerStep] at horphans
      rcases hres : s.finishWorkIntent intentId revision state error now with e | ⟨r, s'⟩
      · rw [hres] at horphans
        cases state <;> exact horphans
      · rw [hres] at horphans
        obtain ⟨⟨r', hr', hid, -, hs⟩, -, -⟩ := finish_spec hres
        cases state with
        | failed =>
            obtain ⟨rfl, -⟩ := horphans
            exact hfree ⟨r', hr', hid, hs⟩
        | _ => exact horphans
  | _ => exact horphans

/-- From when an intent is over, only a recovery that takes it over
changes whether it is an orphan. -/
theorem orphanIn_of_leads (h : Leads ledgerStep (fun _ _ op => op.within scope) pre s post s')
    (hrun : LifetimeRun scope pre s) (hsettled : SettledIn s.workIntents id) :
    OrphanIn s'.workIntents id
      ↔ OrphanIn s.workIntents id ∧ ∀ e ∈ post, ¬ TakesOver id e := by
  induction h with
  | done => simp
  | @next pre post s s' op hop _ ih =>
      rw [ih (hrun.next op hop) (hsettled.step op), orphanIn_step hrun.tracked hrun hop]
      have hnot := hsettled.not_orphans hrun op
      simp only [hnot, false_or, List.forall_mem_cons, and_assoc]

/-- A start fails what it finds leased. -/
theorem settled_of_abandon (hrun : LifetimeRun scope pre s) (now : Nat)
    (h : LeasedIn s.workIntents id) : SettledIn
      (ledgerStep s (.abandon scope RuntimeState.restartReason now)).2.workIntents id := by
  obtain ⟨r, hr, hid, hs⟩ := h
  simp only [ledgerStep, abandon_eq]
  exact ⟨_, mem_updateWhere_of hr (by simp [hrun.tracked.inScope r hr, hs]), hid, rfl⟩

theorem orphans_of_abandon (hrun : LifetimeRun scope pre s) (now : Nat)
    (h : LeasedIn s.workIntents id) :
    Orphans scope pre id (.abandon scope RuntimeState.restartReason now,
      (ledgerStep s (.abandon scope RuntimeState.restartReason now)).1) := by
  simp only [ledgerStep, abandon_eq]
  exact ⟨s, hrun, h⟩

/-- A finished intent is over, and no orphan. -/
theorem finished_of_ok (hrun : LifetimeRun scope pre s) {revision : Int}
    {state : WorkIntentState} {error : Option JsonObject} {now : Nat} {result : LedgerResult}
    (h : (ledgerStep s (.finish id revision state error now)).1 = .ok result)
    (hshape : ¬ (state = .failed ∧ restartError error = true)) :
    SettledIn (ledgerStep s (.finish id revision state error now)).2.workIntents id
      ∧ ¬ OrphanIn (ledgerStep s (.finish id revision state error now)).2.workIntents id := by
  simp only [ledgerStep] at h ⊢
  rcases hres : s.finishWorkIntent id revision state error now with e | ⟨r, s'⟩
  · rw [hres] at h
    cases h
  · obtain ⟨⟨r', hr', hid, -, hs⟩, -, hdone⟩ := finish_spec hres
    refine ⟨hdone, fun horphan => ?_⟩
    rcases (orphanIn_finishIntent hrun.tracked.inScope hres).mp horphan with
      ⟨hstate, -, herror⟩ | ⟨⟨r'', hr'', hid', horphaned⟩, -⟩
    · exact hshape ⟨hstate, herror⟩
    · obtain rfl := hrun.tracked.keyed.unique hr' hr'' (hid.trans hid'.symm)
      rw [orphaned_of_state (by rw [hs]; decide)] at horphaned
      cases horphaned

end Settled

/-! ## The claim on lifetimes -/

/-- A start has reported the intent. -/
def Reports (output : LedgerOutput) (id : String) : Prop :=
  ∃ rows, output = .ok (.rows rows) ∧ id ∈ rows.map (·.intentId)

theorem reports_iff {scope : RuntimeScope} {log : LedgerLog} {s : RuntimeState}
    (h : LifetimeRun scope log s) (now : Nat) (id : String) :
    Reports (ledgerStep s (.abandon scope RuntimeState.restartReason now)).1 id
      ↔ LeasedIn s.workIntents id ∨ OrphanIn s.workIntents id := by
  simp only [ledgerStep, abandon_eq]
  have hmem : ∀ r, r ∈ (s.workIntents.filter (RuntimeState.abandonable scope
      RuntimeState.restartReason)).insertionSort (fun a b => RuntimeState.abandonOrder a b)
      ↔ r ∈ s.workIntents
        ∧ (r.state = .leased ∨ r.orphaned RuntimeState.restartReason = true) := fun r => by
    rw [List.mem_insertionSort, List.mem_filter]
    refine and_congr_right fun hr => ?_
    simp [RuntimeState.abandonable, h.tracked.inScope r hr]
  constructor
  · rintro ⟨rows, hrows, hid⟩
    cases hrows
    obtain ⟨r, hr, rfl⟩ := List.mem_map.mp hid
    obtain ⟨hr, hs | horphaned⟩ := (hmem r).mp hr
    · exact .inl ⟨r, hr, rfl, hs⟩
    · exact .inr ⟨r, hr, rfl, horphaned⟩
  · rintro (⟨r, hr, rfl, hs⟩ | ⟨r, hr, rfl, horphaned⟩)
    · exact ⟨_, rfl, List.mem_map_of_mem ((hmem r).mpr ⟨hr, .inl hs⟩)⟩
    · exact ⟨_, rfl, List.mem_map_of_mem ((hmem r).mpr ⟨hr, .inr horphaned⟩)⟩

/-- The queue's constructor is two calls: the start, whose rows are its
`orphaned_intents`, and the end of stale quits. -/
theorem init_eq (q : PersistentWorkIntentQueue) (s : RuntimeState) (now later : Nat) :
    ∃ rows n, (ledgerStep s (.abandon q.scope RuntimeState.restartReason now)).1
        = .ok (.rows rows)
      ∧ q.init s now later = .ok ((rows.map intentFromRow, n),
        (ledgerStep (ledgerStep s (.abandon q.scope RuntimeState.restartReason now)).2
          (.supersede q.scope [.quit] "earlier_process_quit" later)).2) := by
  simp only [ledgerStep, PersistentWorkIntentQueue.init, abandon_eq]
  exact ⟨_, _, rfl, rfl⟩

/-- What the next start reports, wherever lifetimes stand. -/
structure OrphanVisibility (scope : RuntimeScope) (log : LedgerLog) (s : RuntimeState) :
    Prop where
  /-- the work the last process held, and orphans nobody has taken over -/
  reported_iff : ∀ id now,
    Reports (ledgerStep s (.abandon scope RuntimeState.restartReason now)).1 id
      ↔ LeasedIn s.workIntents id ∨ OrphanSince scope log id
  /-- the work a start found leased, until a recovery takes it over -/
  visible_until_taken_over : ∀ pre started output post s₁ id now,
    log = pre ++ (.abandon scope RuntimeState.restartReason started, output) :: post →
    LifetimeRun scope pre s₁ → LeasedIn s₁.workIntents id →
    (Reports (ledgerStep s (.abandon scope RuntimeState.restartReason now)).1 id
      ↔ ∀ e ∈ post, ¬ TakesOver id e)
  /-- none of the work a holder has finished -/
  finished_hidden : ∀ pre id revision state error finished result post now,
    log = pre ++ (.finish id revision state error finished, .ok result) :: post →
    ¬ (state = .failed ∧ restartError error = true) →
    ¬ Reports (ledgerStep s (.abandon scope RuntimeState.restartReason now)).1 id

/-- **Orphans stay visible** over any number of lifetimes until a recovery
takes them over, and not a start longer; finished work never shows up
among them, unless its holder failed it with the restart's own reason. -/
theorem orphan_visibility {scope : RuntimeScope} {log : LedgerLog} {s : RuntimeState}
    (h : LifetimeRun scope log s) : OrphanVisibility scope log s where
  reported_iff := fun id now => by rw [reports_iff h, h.tracked.orphans]
  visible_until_taken_over := by
    intro pre started output post s₁ id now hlog hpre hleased
    subst hlog
    obtain ⟨s₂, hpre', hpost⟩ := h.split
    obtain rfl := hpre.state_unique hpre'
    obtain ⟨rfl, hop, hpost⟩ := hpost.head
    have hsettled := settled_of_abandon hpre started hleased
    have horphan := (orphanIn_step hpre.tracked hpre hop).mpr
      (.inl (orphans_of_abandon hpre started hleased))
    rw [reports_iff h, orphanIn_of_leads hpost (hpre.next _ hop) hsettled]
    have hfree := (hsettled.of_leads hpost).not_leased h.tracked.keyed
    simp [hfree, horphan]
  finished_hidden := by
    intro pre id revision state error finished result post now hlog hshape
    subst hlog
    obtain ⟨s₁, hpre, hpost⟩ := h.split
    obtain ⟨hout, hop, hpost⟩ := hpost.head
    obtain ⟨hsettled, hclean⟩ := finished_of_ok hpre hout.symm hshape
    rw [hout] at hpost
    rw [reports_iff h, orphanIn_of_leads hpost (hpre.next _ hop) hsettled]
    have hfree := (hsettled.of_leads hpost).not_leased h.tracked.keyed
    simp [hfree, hclean]

/-! ## Two lifetimes -/

def villaScope : RuntimeScope := ⟨"villa", "Bot"⟩

/-- A startup reconciliation that names `a`. -/
def reconcileDraft : RuntimeState.WorkIntentDraft where
  kind := .recoveryReconcile
  source := "startup_reconcile"
  priority := 80
  payload := [("orphaned_intents", .arr [.obj [("intent_id", .str "a")]])]
  dedupeKey := none
  taskId := none
  generation := none

/-- A process dies with `a` leased; the next one fails a reconciliation
of it and then binds another. -/
def twoLifetimes : List LedgerOp :=
  [.enqueue villaScope ⟨.start, "user", 65, [], none, none, none⟩ none "a" 0,
    .leaseNext villaScope "p1" 60000000 none 1000 1000,
    .abandon villaScope RuntimeState.restartReason 2000,
    .enqueue villaScope reconcileDraft none "b" 3000,
    .leaseNext villaScope "p2" 60000000 none 4000 4000,
    .finish "b" 2 .failed (some [("reason", .str "test")]) 5000,
    .enqueue villaScope reconcileDraft none "c" 6000,
    .leaseNext villaScope "p2" 60000000 none 7000 7000,
    .bind villaScope "c" 2 "p2" none 0 none 8000]

theorem within_of_forall {scope : RuntimeScope} {ops : List LedgerOp}
    (h : ∀ op ∈ ops, op.within scope) : LifetimeRun scope (exec ledgerStep .empty ops).1
      (exec ledgerStep .empty ops).2 :=
  .of_inputs ops fun _ _ => h

theorem orphan_visibility_twoLifetimes :
    OrphanVisibility villaScope (exec ledgerStep .empty twoLifetimes).1
      (exec ledgerStep .empty twoLifetimes).2 :=
  orphan_visibility (within_of_forall (by simp [twoLifetimes, LedgerOp.within]))

/-- `a` is failed by its holder, with the restart's reason. -/
def heldFailure : List LedgerOp :=
  [.enqueue villaScope ⟨.start, "user", 65, [], none, none, none⟩ none "a" 0,
    .leaseNext villaScope "p1" 60000000 none 1000 1000,
    .finish "a" 2 .failed (some [("reason", .str RuntimeState.restartReason)]) 2000]

/-- The next start reports it as an orphan. -/
theorem held_failure_reported :
    LifetimeRun villaScope (exec ledgerStep .empty heldFailure).1
        (exec ledgerStep .empty heldFailure).2
      ∧ finishes (exec ledgerStep .empty heldFailure).1 = ["a"]
      ∧ Reports (ledgerStep (exec ledgerStep .empty heldFailure).2
        (.abandon villaScope RuntimeState.restartReason 3000)).1 "a" := by
  refine ⟨within_of_forall (by simp [heldFailure, LedgerOp.within]), by decide, _, rfl, ?_⟩
  decide

end MineBot
