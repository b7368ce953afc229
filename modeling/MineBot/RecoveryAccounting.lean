import MineBot.LedgerSteps
import MineBot.RecoveryHistory
import MineBot.WorkQueue

/-!
# Recovery accounting in both queues

Each call of the durable ledger, for every scope, and each call of the
process-local queue is one step of the history that the recovery
accounting reads. A fresh intent carries no admission: only a
reservation writes one.
-/

namespace MineBot

open Table Relation

/-! ## Writes to one record -/

section Writes

variable {H : List HistoryRecord} {r : HistoryRecord}

theorem progress_write (hkeyed : Keyed (·.intentId) H) (hr : r ∈ H) {payload : JsonObject}
    (hadvances : Advances r (r.setPayload payload)) :
    Progress H (writeRecord r.intentId payload H) := by
  refine .updateWhere fun r' hr' hid => ?_
  obtain rfl := hkeyed.unique hr' hr (by simpa using hid)
  exact hadvances

/-- Binding an admission keeps an owner that is there already. -/
theorem advances_bind {checkpointId taskId : Option String} {cursor : Int}
    (h : RuntimeState.bindsOtherwise r.payload
      (RuntimeState.admissionEntries checkpointId cursor taskId) = false) :
    Advances r (r.setPayload (r.payload.update
      (RuntimeState.admissionEntries checkpointId cursor taskId))) where
  intentId := rfl
  owned := by
    rintro o ⟨bound, hbound, heq⟩
    refine ⟨Json.ofString? taskId, Dict.get?_set_self .., ?_⟩
    have hall := List.any_eq_false.mp h ("admission_task_id", Json.ofString? taskId)
      (by simp [RuntimeState.admissionEntries])
    have hsame : bound.pyEq (Json.ofString? taskId) = true := by
      rw [HistoryRecord.owner?] at hbound
      simpa [hbound] using hall
    rw [Json.pyEq_iff] at *
    exact hsame.symm.trans heq
  admission := .inl (Dict.get?_update_of_get?_none _ _ rfl)

theorem confirmedRecoveryPayload_inv {payload confirmed : JsonObject}
    (h : confirmedRecoveryPayload payload = .ok confirmed) :
    ∃ fields, payload.get? "recovery_admission" = some (.obj fields)
      ∧ confirmed = payload.set "recovery_admission"
        (.obj (Dict.set fields "confirmed" (.bool true))) := by
  unfold confirmedRecoveryPayload at h
  split at h
  · next fields hfields =>
      refine ⟨fields, hfields, ?_⟩
      cases hvalid : validatedAdmission (.obj fields) with
      | error e => rw [hvalid] at h; cases h
      | ok a =>
          rw [hvalid] at h
          exact (Except.ok.inj h).symm
  · cases h

theorem advances_confirm {confirmed : JsonObject}
    (h : confirmedRecoveryPayload r.payload = .ok confirmed) :
    Advances r (r.setPayload confirmed) := by
  obtain ⟨fields, hfields, rfl⟩ := confirmedRecoveryPayload_inv h
  refine ⟨rfl, fun o ⟨bound, hbound, heq⟩ => ⟨bound, ?_, heq⟩, .inr ⟨fields, hfields, ?_⟩⟩
  · exact (Dict.get?_set_of_ne _ (by decide) _).trans hbound
  · exact Dict.get?_set_self ..

theorem mem_reconcileCandidates {taskId : String}
    {candidates : List (HistoryRecord × RecoveryAdmission)}
    (h : reconcileCandidates taskId H = .ok candidates) {c : HistoryRecord × RecoveryAdmission}
    (hc : c ∈ candidates) : c.1 ∈ H ∧ c.1.state.terminal = true := by
  induction H generalizing candidates with
  | nil =>
      obtain rfl := Except.ok.inj h
      cases hc
  | cons r H ih =>
      simp only [reconcileCandidates, bind, Except.bind] at h
      split at h
      · cases h
      · next candidate hcandidate =>
          split at h
          · cases h
          · next rest hrest =>
              obtain rfl := Except.ok.inj h
              rcases List.mem_append.mp hc with hc | hc
              · obtain rfl := Option.mem_toList.mp hc
                simp only [reconcileCandidate, bind, Except.bind] at hcandidate
                split at hcandidate
                · split at hcandidate <;> cases hcandidate
                · cases hcandidate
                · cases hcandidate
                · split at hcandidate
                  · cases hcandidate
                  · split at hcandidate
                    · next hterminal =>
                        cases hcandidate
                        exact ⟨List.mem_cons_self, hterminal⟩
                    · cases hcandidate
              · obtain ⟨hmem, hterminal⟩ := ih hrest hc
                exact ⟨List.mem_cons_of_mem _ hmem, hterminal⟩

/-- A reconciliation settles one ended intent, or none. -/
theorem reconciled_inv {current : HistoryRecord} {state : BodyState} {target : String}
    {payload : JsonObject}
    (h : reconciledRecoveryPayload current H state = .ok (some (target, payload))) :
    ∃ r ∈ H, r.intentId = target ∧ r.state.terminal = true
      ∧ Advances r (r.setPayload payload) := by
  unfold reconciledRecoveryPayload at h
  split at h
  · cases h
  · split at h
    · extract_lets sameTask sameOwner at h
      split at h
      · cases h
      · split at h
        · cases h
        · split at h
          · cases h
          · split at h
            · cases h
            · next candidates hcandidates =>
                split at h
                · cases h
                · split at h
                  · cases h
                  · next record admission hlatest =>
                      split at h
                      · cases h
                      · split at h
                        · cases h
                        · next confirmed hconfirmed =>
                            cases h
                            obtain ⟨hmem, hterminal⟩ :=
                              mem_reconcileCandidates hcandidates (List.argmax_mem hlatest)
                            refine ⟨record, hmem, rfl, hterminal, ?_⟩
                            exact (advances_confirm hconfirmed).trans
                              (.of_set _ (by decide) (by decide))
    · cases h

end Writes

/-! ## The durable ledger -/

/-- A row whose id, scope and payload are as they were. -/
structure Unwritten (r r' : WorkIntentRow) : Prop where
  intentId : r'.intentId = r.intentId
  scopeKey : r'.scopeKey = r.scopeKey
  payload : r'.payload = r.payload

/-- The records of a scope. -/
def records (scope : RuntimeScope) (rows : List WorkIntentRow) : List HistoryRecord :=
  (rows.filter fun r => r.scopeKey = scope.key).map (·.toRecord)

section Ledger

variable {s s' : RuntimeState} {scope scope' : RuntimeScope} {rows rows' : List WorkIntentRow}

theorem mem_records {r : HistoryRecord} : r ∈ records scope rows ↔
    ∃ row ∈ rows, row.scopeKey = scope.key ∧ row.toRecord = r := by
  simp only [records, List.mem_map, List.mem_filter, decide_eq_true_eq, and_assoc]

theorem records_append (rows new : List WorkIntentRow) :
    records scope (rows ++ new) = records scope rows ++ records scope new := by
  simp only [records, List.filter_append, List.map_append]

theorem keyed_records (h : Keyed (·.intentId) rows) :
    Keyed (·.intentId) (records scope rows) := by
  rw [Keyed, records, List.map_map]
  exact h.sublist (List.filter_sublist.map _)

theorem progress_of_unwritten (h : Moves Unwritten rows rows') :
    Progress (records scope rows) (records scope rows') := by
  have hpath : ∀ r r', ReflTransGen Unwritten r r' → Unwritten r r' := by
    intro r r' hpath
    induction hpath with
    | refl => exact ⟨rfl, rfl, rfl⟩
    | tail _ hstep ih =>
        exact ⟨hstep.intentId.trans ih.intentId, hstep.scopeKey.trans ih.scopeKey,
          hstep.payload.trans ih.payload⟩
  have hfilter : List.Forall₂ (ReflTransGen Unwritten)
      (rows.filter fun r => r.scopeKey = scope.key)
      (rows'.filter fun r => r.scopeKey = scope.key) :=
    paired_filter h fun r r' hr => by rw [(hpath r r' hr).scopeKey]
  rw [Progress, records, records, List.forall₂_map_left_iff, List.forall₂_map_right_iff]
  exact paired_mono hfilter fun r _ r' hr =>
    .of_payload (hpath r r' hr).intentId (hpath r r' hr).payload

theorem records_writePayload (intentId : String) (payload : JsonObject) :
    records scope (RuntimeState.writePayload intentId payload rows)
      = writeRecord intentId payload (records scope rows) := by
  have hfilter : (rows.filter ((fun r => decide (r.scopeKey = scope.key)) ∘ fun r =>
      if decide (r.intentId = intentId) = true then r.setPayload payload else r))
      = rows.filter fun r => r.scopeKey = scope.key := by
    refine List.filter_congr fun r _ => ?_
    simp only [Function.comp_apply]
    split <;> rfl
  rw [records, records, writeRecord, RuntimeState.writePayload, updateWhere, updateWhere,
    List.filter_map, hfilter, List.map_map, List.map_map]
  refine List.map_congr_left fun r _ => ?_
  by_cases hid : r.intentId = intentId <;>
    simp [hid, WorkIntentRow.toRecord, WorkIntentRow.setPayload, HistoryRecord.setPayload]

/-- A write to a row that another scope holds, or that advances it. -/
theorem progress_writePayload (hkeyed : Keyed (·.intentId) rows) {row : WorkIntentRow}
    (hrow : row ∈ rows) {payload : JsonObject}
    (hadvances : Advances row.toRecord (row.setPayload payload).toRecord) :
    Progress (records scope rows)
      (records scope (RuntimeState.writePayload row.intentId payload rows)) := by
  rw [records_writePayload]
  refine .updateWhere fun r hr hid => ?_
  obtain ⟨row', hrow', -, rfl⟩ := mem_records.mp hr
  obtain rfl := hkeyed.unique hrow' hrow (of_decide_eq_true hid)
  exact hadvances

/-- A fresh intent holds no admission. -/
def LedgerOp.Unreserved : LedgerOp → Prop
  | .enqueue _ draft .. => draft.payload.get? "recovery_admission" = none
  | .issueContinuation _ _ _ _ _ _ _ _ payload .. => payload.get? "recovery_admission" = none
  | _ => True

theorem LedgerOp.Drafts.unreserved {op : LedgerOp} {r : WorkIntentRow} (h : op.Drafts r)
    (hop : op.Unreserved) : r.toRecord.admission? = none := by
  cases op with
  | enqueue => obtain ⟨_, rfl⟩ := h; exact hop
  | issueContinuation => obtain ⟨_, _, rfl⟩ := h; exact hop
  | _ => exact h.elim

/-- An admission as a payload holds it. -/
def readAdmission? (payload : JsonObject) : Option RecoveryAdmission :=
  match payload.get? "recovery_admission" with
  | some (.obj fields) =>
      match Dict.get? fields "episode_id", Dict.get? fields "sequence",
          Dict.get? fields "attempt", Dict.get? fields "limit",
          Dict.get? fields "confirmed" with
      | some (.str episodeId), some (.int sequence), some (.int attempt), some (.int limit),
          some (.bool confirmed) => some ⟨episodeId, sequence, attempt, limit, confirmed⟩
      | _, _, _, _, _ => none
  | _ => none

/-- The grant that a returned payload shows. -/
def grantFrom? (intentId : String) (maxAttempts : Int) (payload : JsonObject) : Option Grant :=
  match payload.get? "admission_task_id", readAdmission? payload with
  | some owner, some admission => some ⟨owner, intentId, maxAttempts, admission⟩
  | _, _ => none

/-- The reservation an entry of the log was granted in this scope. -/
def ledgerGrant? (scope : RuntimeScope) : LedgerOp × LedgerOutput → Option Grant
  | (.reserve scope' intentId _ _ maxAttempts _, .ok (.row? (some r))) =>
      if scope'.key = scope.key then grantFrom? intentId maxAttempts r.payload else none
  | _ => none

/-- A reservation that was denied. -/
def LedgerDenied : LedgerOp × LedgerOutput → Prop
  | (.reserve .., .ok (.row? none)) => True
  | _ => False

theorem grantFrom?_set {payload : JsonObject} {owner : Json}
    (howner : payload.get? "admission_task_id" = some owner) (intentId : String)
    (maxAttempts : Int) (a : RecoveryAdmission) :
    grantFrom? intentId maxAttempts (payload.set "recovery_admission" a.toJson)
      = some ⟨owner, intentId, maxAttempts, a⟩ := by
  have hread : readAdmission? (payload.set "recovery_admission" a.toJson) = some a := by
    rw [readAdmission?, Dict.get?_set_self]
    rfl
  rw [grantFrom?, Dict.get?_set_of_ne _ (by decide), howner, hread]

/-- A call that grants nothing and writes no admission. -/
theorem historyStep_of_progress (hkeyed : Keyed (·.intentId) s.workIntents)
    (h : Progress (s.history scope) (s'.history scope)) :
    HistoryStep (s.history scope) none (s'.history scope) :=
  .of_progress h (keyed_records hkeyed)

theorem historyStep_insert (hkeyed : Keyed (·.intentId) s.workIntents) {r : WorkIntentRow}
    (hins : s.insertable r = true) (hnone : r.toRecord.admission? = none) :
    HistoryStep (s.history scope) none ((s.insert r).history scope) := by
  have hnext : (s.insert r).history scope = s.history scope ++ records scope [r] :=
    records_append s.workIntents [r]
  rw [hnext]
  refine .quiet _ (.refl _) (fun r' hr' => ?_) ?_
  · obtain ⟨row, hrow, -, rfl⟩ := mem_records.mp hr'
    obtain rfl := List.mem_singleton.mp hrow
    exact hnone
  · rw [← hnext]
    exact keyed_records ((evolves_insert hins).keyed hkeyed)

theorem historyStep_reserve (hkeyed : Keyed (·.intentId) s.workIntents) {intentId : String}
    {revision : Int} {leaseOwner : String} {maxAttempts : Int} {now : Nat}
    {res : Option WorkIntentRow}
    (h : s.reserveRecoveryAttempt scope' intentId revision leaseOwner maxAttempts now
      = .ok (res, s')) :
    HistoryStep (s.history scope) (ledgerGrant? scope
      (.reserve scope' intentId revision leaseOwner maxAttempts now, .ok (.row? res)))
      (s'.history scope)
    ∧ (res = none → SameAccount (s.history scope) (s'.history scope)) := by
  obtain ⟨row, admission, hrow, hnext, rfl, rfl⟩ := reserve_inv h
  obtain ⟨hmem, rfl, hscope, -, -⟩ := leasedRow_spec hrow
  cases admission with
  | none =>
      have hwrite : ({ s with
          workIntents := RuntimeState.writePayload row.intentId
            (row.payload.set "recovery_admission_denied" (.bool true)) s.workIntents } :
          RuntimeState).history scope
          = updateWhere (fun r => r.intentId = row.intentId) deny (s.history scope) := by
        refine (records_writePayload _ _).trans (List.map_congr_left fun r hr => ?_)
        obtain ⟨row', hrow', -, rfl⟩ := mem_records.mp hr
        split
        · next hid =>
            obtain rfl := hkeyed.unique hrow' hmem (of_decide_eq_true hid)
            rfl
        · rfl
      refine ⟨historyStep_of_progress hkeyed ?_, fun _ => ?_⟩
      · exact progress_writePayload hkeyed hmem (.of_set _ (by decide) (by decide))
      · exact hwrite ▸ sameAccount_deny _ _
  | some a =>
      obtain ⟨-, owner, previous, howner, -, -, -⟩ := nextRecoveryAdmission_inv hnext
      refine ⟨?_, nofun⟩
      have hgrant : ledgerGrant? scope (.reserve scope' row.intentId revision leaseOwner
          maxAttempts now, .ok (.row? (some (row.setPayload
            (row.payload.set "recovery_admission" a.toJson)))))
          = if scope'.key = scope.key then some ⟨owner, row.intentId, maxAttempts, a⟩
            else none := by
        rw [← grantFrom?_set howner]
        rfl
      dsimp only [Option.map]
      rw [hgrant]
      split
      · next hsame =>
          have hhistory : s.history scope' = records scope s.workIntents := by
            rw [RuntimeState.history, hsame]
            rfl
          rw [hhistory] at hnext
          have hstep := HistoryStep.grant ⟨owner, row.intentId, maxAttempts, a⟩ row.toRecord
            (mem_records.mpr ⟨row, hmem, hscope.trans hsame, rfl⟩) rfl howner hnext
          rw [← records_writePayload] at hstep
          exact hstep
      · next hother =>
          -- the row lies outside this scope
          have hnone : ∀ r ∈ s.history scope, decide (r.intentId = row.intentId) = false := by
            intro r hr
            obtain ⟨row', hrow', hscope', rfl⟩ := mem_records.mp hr
            refine decide_eq_false fun hid => hother ?_
            rw [← hscope, ← hscope', hkeyed.unique hrow' hmem hid]
          have hsame : ({ s with
              workIntents := RuntimeState.writePayload row.intentId
                (row.payload.set "recovery_admission" a.toJson) s.workIntents } :
              RuntimeState).history scope = s.history scope :=
            (records_writePayload _ _).trans (updateWhere_none hnone)
          refine historyStep_of_progress hkeyed ?_
          rw [hsame]
          exact .refl _

theorem unwritten_mark (r : WorkIntentRow) (by_ : String) (_ : r.state = .failed) :
    Unwritten r (r.markReconciled by_) :=
  ⟨rfl, rfl, rfl⟩

theorem progress_bind (hkeyed : Keyed (·.intentId) s.workIntents) {intentId : String}
    {revision : Int} {leaseOwner : String} {checkpointId taskId : Option String} {cursor : Int}
    {now : Nat} {r : WorkIntentRow}
    (h : s.bindWorkIntentAdmission scope' intentId revision leaseOwner checkpointId cursor
      taskId now = .ok (r, s')) : Progress (s.history scope) (s'.history scope) := by
  obtain ⟨row, rows, payload, hrow, hbinds, rfl, hretire, -, rfl⟩ := bind_inv h
  obtain ⟨hmem, rfl, -, -, -⟩ := leasedRow_spec hrow
  exact (progress_writePayload hkeyed hmem (advances_bind (r := row.toRecord) hbinds)).trans
    (progress_of_unwritten (moves_retire unwritten_mark hretire))

theorem progress_reconcile (hkeyed : Keyed (·.intentId) s.workIntents) {intentId : String}
    {revision : Int} {leaseOwner : String} {state : BodyState} {now : Nat} {u : Unit}
    (h : s.reconcileRecovery scope' intentId revision leaseOwner state now = .ok (u, s')) :
    Progress (s.history scope) (s'.history scope) := by
  obtain ⟨row, hrow, rfl | ⟨settlement, hsettled, rfl⟩⟩ := reconcile_inv h
  · exact .refl _
  · obtain ⟨hmem, rfl, hscope, -, hleased⟩ := leasedRow_spec hrow
    -- the settlement advances an ended row, which is not the leased one
    obtain ⟨hfirst, hown⟩ : Progress (s.history scope)
        (records scope (RuntimeState.writeSettlement settlement s.workIntents))
        ∧ row ∈ RuntimeState.writeSettlement settlement s.workIntents := by
      cases settlement with
      | none => exact ⟨.refl _, hmem⟩
      | some settlement =>
          obtain ⟨target, payload⟩ := settlement
          obtain ⟨r, hr, rfl, hterminal, hadvances⟩ := reconciled_inv hsettled
          obtain ⟨ended, hended, -, rfl⟩ := mem_records.mp hr
          refine ⟨progress_writePayload hkeyed hended hadvances,
            mem_updateWhere_of_not hmem (decide_eq_false fun hid => ?_)⟩
          have hstate : ended.state.terminal = true := hterminal
          rw [← hkeyed.unique hmem hended hid, hleased] at hstate
          cases hstate
    dsimp only [RuntimeState.history]
    split
    · exact hfirst
    · have hkeyed' : Keyed (·.intentId)
          (RuntimeState.writeSettlement settlement s.workIntents) :=
        Moves.keyed ((moves_writeSettlement ..).mono fun _ _ => .inl) hkeyed
      exact hfirst.trans (progress_writePayload hkeyed' hown
        (.of_set _ (by decide) (by decide)))

/-- **A call of the ledger is a step of every scope's history.** -/
theorem ledgerStep_history (hkeyed : Keyed (·.intentId) s.workIntents) (op : LedgerOp)
    (hop : op.Unreserved) :
    HistoryStep (s.history scope) (ledgerGrant? scope (op, (ledgerStep s op).1))
      ((ledgerStep s op).2.history scope) := by
  have hquiet : ∀ {rows}, Moves Unwritten s.workIntents rows →
      HistoryStep (s.history scope) none (({ s with workIntents := rows } :
        RuntimeState).history scope) :=
    fun h => historyStep_of_progress hkeyed (progress_of_unwritten h)
  have hsame : HistoryStep (s.history scope) none (s.history scope) :=
    historyStep_of_progress hkeyed (.refl _)
  cases op with
  | enqueue scope' draft availableAt intentId now =>
      simp only [ledgerStep]
      rcases h : s.enqueueWorkIntent scope' draft availableAt intentId now with e | ⟨r, s'⟩
      · exact hsame
      · rcases enqueue_spec h with ⟨source, rfl, hins, rfl⟩ | ⟨-, rfl⟩
        · exact historyStep_insert hkeyed hins hop
        · exact hsame
  | issueContinuation scope' checkpointId rev taskId gen kind source priority payload dedupe
      id now =>
      simp only [ledgerStep]
      rcases h : s.issueCheckpointContinuation scope' checkpointId rev taskId gen kind source
        priority payload dedupe id now with e | ⟨r, s'⟩
      · exact hsame
      · rcases issue_spec h with ⟨source, dedupe, r, rfl, rfl, hins, rfl⟩ | ⟨-, rfl⟩
        · exact historyStep_insert hkeyed hins hop
        · exact hsame
  | leaseNext scope' leaseOwner leaseMicros kind now later =>
      simp only [ledgerStep]
      rcases h : s.leaseNextWorkIntent scope' leaseOwner leaseMicros kind now later
        with e | ⟨res, s'⟩
      · exact hsame
      · have hrequeue : Moves Unwritten s.workIntents
            (s.requeueExpired scope' kind (utcNow now)) := .updateWhere fun _ _ _ => ⟨rfl, rfl, rfl⟩
        rcases leaseNext_spec h with ⟨rfl, rfl, -⟩ | ⟨row, owner, -, -, rfl, rfl⟩
        · exact hquiet hrequeue
        · exact hquiet (hrequeue.trans (.updateWhere fun _ _ _ => ⟨rfl, rfl, rfl⟩))
  | bind scope' intentId revision leaseOwner checkpointId cursor taskId now =>
      simp only [ledgerStep]
      rcases h : s.bindWorkIntentAdmission scope' intentId revision leaseOwner checkpointId
        cursor taskId now with e | ⟨r, s'⟩
      · exact hsame
      · exact historyStep_of_progress hkeyed (progress_bind hkeyed h)
  | reserve scope' intentId revision leaseOwner maxAttempts now =>
      simp only [ledgerStep]
      rcases h : s.reserveRecoveryAttempt scope' intentId revision leaseOwner maxAttempts now
        with e | ⟨r, s'⟩
      · exact hsame
      · exact (historyStep_reserve hkeyed h).1
  | confirm scope' intentId revision leaseOwner now =>
      simp only [ledgerStep]
      rcases h : s.confirmRecovery scope' intentId revision leaseOwner now with e | ⟨r, s'⟩
      · exact hsame
      · obtain ⟨row, payload, hrow, hconfirmed, rfl, rfl⟩ := confirm_inv h
        obtain ⟨hmem, rfl, -, -, -⟩ := leasedRow_spec hrow
        exact historyStep_of_progress hkeyed
          (progress_writePayload hkeyed hmem (advances_confirm (r := row.toRecord) hconfirmed))
  | reconcile scope' intentId revision leaseOwner state now =>
      simp only [ledgerStep]
      rcases h : s.reconcileRecovery scope' intentId revision leaseOwner state now
        with e | ⟨u, s'⟩
      · exact hsame
      · exact historyStep_of_progress hkeyed (progress_reconcile hkeyed h)
  | finish intentId revision state error now =>
      simp only [ledgerStep]
      rcases h : s.finishWorkIntent intentId revision state error now with e | ⟨r, s'⟩
      · exact hsame
      · obtain ⟨row, rows, -, -, rfl, hrows, rfl⟩ := finish_inv h
        have hfinish : Moves Unwritten s.workIntents (updateWhere (finishToken intentId revision)
            (·.finish state (utcNow now) error) s.workIntents) :=
          .updateWhere fun _ _ _ => ⟨rfl, rfl, rfl⟩
        split at hrows
        · exact hquiet (hfinish.trans (moves_retire unwritten_mark hrows))
        · exact hquiet (hrows ▸ hfinish)
  | supersede scope' kinds reason now =>
      exact hquiet (.updateWhere fun _ _ _ => ⟨rfl, rfl, rfl⟩)
  | abandon scope' reason now =>
      simp only [ledgerStep, abandon_eq]
      exact hquiet (.updateWhere fun _ _ _ => ⟨rfl, rfl, rfl⟩)
  | environment tasks checkpoints => exact hsame

theorem ledgerStep_denied (hkeyed : Keyed (·.intentId) s.workIntents) (op : LedgerOp)
    (h : LedgerDenied (op, (ledgerStep s op).1)) :
    SameAccount (s.history scope) ((ledgerStep s op).2.history scope) := by
  cases op with
  | reserve scope' intentId revision leaseOwner maxAttempts now =>
      simp only [ledgerStep] at h ⊢
      rcases hres : s.reserveRecoveryAttempt scope' intentId revision leaseOwner maxAttempts now
        with e | ⟨r, s'⟩
      · rw [hres] at h
        exact h.elim
      · rw [hres] at h
        cases r with
        | none => exact (historyStep_reserve hkeyed hres).2 rfl
        | some r => exact h.elim
  | _ => exact h.elim

end Ledger

/-- Any interleaving of calls whose fresh intents hold no admission. -/
abbrev RecoveryRun : LedgerLog → RuntimeState → Prop :=
  Run ledgerStep (fun _ _ op => op.Unreserved) .empty

theorem RecoveryRun.keyed {log : LedgerLog} {s : RuntimeState} (h : RecoveryRun log s) :
    Keyed (·.intentId) s.workIntents := by
  induction h with
  | start => exact List.nodup_nil
  | next op _ _ ih => exact (ledgerStep_outcome _ op).evolves.keyed ih

theorem ledger_accounting (scope : RuntimeScope) {log : LedgerLog} {s : RuntimeState}
    (h : RecoveryRun log s) :
    RecoveryAccounting RecoveryRun (ledgerGrant? scope) LedgerDenied (·.history scope) log :=
  recoveryAccounting_of_steps rfl
    (fun _ _ op hrun hop => ledgerStep_history (RecoveryRun.keyed hrun) op hop)
    (fun _ _ op hrun _ hdenied => ledgerStep_denied (RecoveryRun.keyed hrun) op hdenied) h

/-! ## The process-local queue -/

/-- A call of the process-local queue, with the id a new intent would
get. -/
def memoryStep (q : MemoryWorkIntentQueue) (i : String × QueueCall WorkIntent) :
    Except QueueError QueueResult × MemoryWorkIntentQueue :=
  q.call i.1 i.2

/-- A fresh intent holds no admission. -/
def QueueCall.Unreserved {ι : Type} : QueueCall ι → Prop
  | .enqueue _ _ payload .. => payload.get? "recovery_admission" = none
  | .issueTaskContinuation _ _ _ payload .. => payload.get? "recovery_admission" = none
  | _ => True

abbrev MemoryLog := List ((String × QueueCall WorkIntent) × Except QueueError QueueResult)

/-- Any order of calls with fresh ids. -/
abbrev MemoryRun : MemoryLog → MemoryWorkIntentQueue → Prop :=
  Run memoryStep (fun _ q i => (∀ r ∈ q.records, r.intentId ≠ i.1) ∧ i.2.Unreserved) .empty

/-- The reservation an entry of the log was granted. -/
def memoryGrant? : (String × QueueCall WorkIntent) × Except QueueError QueueResult → Option Grant
  | ((_, .reserveRecoveryAttempt intent maxAttempts), .ok (.intent? (some i))) =>
      grantFrom? intent.intentId maxAttempts i.payload
  | _ => none

/-- A reservation that was denied. -/
def MemoryDenied : (String × QueueCall WorkIntent) × Except QueueError QueueResult → Prop
  | ((_, .reserveRecoveryAttempt ..), .ok (.intent? none)) => True
  | _ => False

section Memory

variable {q q' : MemoryWorkIntentQueue}

theorem keyed_history (h : Keyed (·.intentId) q.records) : Keyed (·.intentId) q.history := by
  rw [Keyed, MemoryWorkIntentQueue.history, List.map_map]
  exact h

/-- The record an intent names, if it still holds its lease. -/
theorem current_spec {intent current : WorkIntent} {refused : QueueError}
    (h : q.current intent refused = .ok current) :
    current ∈ q.records ∧ current.intentId = intent.intentId ∧ current.state = .leased := by
  simp only [MemoryWorkIntentQueue.current, MemoryWorkIntentQueue.get, bind, Except.bind] at h
  split at h
  · cases h
  · next record hget =>
      split at hget
      · next found hfound =>
          obtain rfl := Except.ok.inj hget
          split at h
          · cases h
          · next hheld =>
              obtain rfl := Except.ok.inj h
              refine ⟨List.mem_of_find?_eq_some hfound,
                by simpa using List.find?_some hfound, ?_⟩
              exact Decidable.not_not.mp fun hne => hheld (.inr hne)
      · cases hget

/-- Replacing a record by itself with another payload. -/
theorem history_put (hkeyed : Keyed (·.intentId) q.records) {current : WorkIntent}
    (hmem : current ∈ q.records) (payload : JsonObject) :
    (q.put { current with payload := payload }).history
      = writeRecord current.intentId payload q.history := by
  simp only [MemoryWorkIntentQueue.history, MemoryWorkIntentQueue.put, writeRecord, updateWhere,
    List.map_map]
  refine List.map_congr_left fun r hr => ?_
  by_cases hid : r.intentId = current.intentId
  · obtain rfl := hkeyed.unique hr hmem hid
    simp [WorkIntent.toRecord, HistoryRecord.setPayload]
  · simp [WorkIntent.toRecord, hid]

theorem history_settlement (target : String) (payload : JsonObject) :
    (q.putSettlement (some (target, payload))).history
      = writeRecord target payload q.history := by
  simp only [MemoryWorkIntentQueue.putSettlement, MemoryWorkIntentQueue.history, writeRecord,
    updateWhere, List.map_map]
  refine List.map_congr_left fun r _ => ?_
  by_cases hid : r.intentId = target <;>
    simp [WorkIntent.toRecord, HistoryRecord.setPayload, hid]

theorem progress_put (hkeyed : Keyed (·.intentId) q.records) {current : WorkIntent}
    (hmem : current ∈ q.records) {payload : JsonObject}
    (hadvances : Advances current.toRecord (current.toRecord.setPayload payload)) :
    Progress q.history (q.put { current with payload := payload }).history := by
  rw [history_put hkeyed hmem]
  exact progress_write (keyed_history hkeyed) (List.mem_map_of_mem hmem) hadvances

/-- An update that leaves ids and payloads alone. -/
theorem progress_updateWhere {p : WorkIntent → Bool} {f : WorkIntent → WorkIntent}
    (hf : ∀ r ∈ q.records, p r = true → (f r).intentId = r.intentId
      ∧ (f r).payload = r.payload) :
    Progress q.history (MemoryWorkIntentQueue.mk (updateWhere p f q.records)).history := by
  rw [Progress, MemoryWorkIntentQueue.history, MemoryWorkIntentQueue.history, updateWhere,
    List.forall₂_map_left_iff, List.forall₂_map_right_iff, List.forall₂_map_right_iff]
  refine List.forall₂_same.mpr fun r hr => ?_
  split
  · next hp =>
      obtain ⟨hid, hpayload⟩ := hf r hr hp
      exact .of_payload hid hpayload
  · exact .refl _

theorem progress_put_same (hkeyed : Keyed (·.intentId) q.records) {current : WorkIntent}
    (hmem : current ∈ q.records) {new : WorkIntent} (hid : new.intentId = current.intentId)
    (hpayload : new.payload = current.payload) :
    Progress q.history (q.put new).history := by
  refine progress_updateWhere fun r hr hp => ?_
  obtain rfl := hkeyed.unique hr hmem ((of_decide_eq_true hp).trans hid)
  exact ⟨hid, hpayload⟩

theorem historyStep_enqueue (hkeyed : Keyed (·.intentId) q.records) {kind : WorkIntentKind}
    {source : String} {payload : JsonObject} {dedupeKey taskId : Option String}
    {generation : Option Int} {intentId : String}
    (hfresh : ∀ r ∈ q.records, r.intentId ≠ intentId)
    (hnone : payload.get? "recovery_admission" = none) :
    HistoryStep q.history none
      (q.enqueue kind source payload dedupeKey taskId generation intentId).2.history := by
  unfold MemoryWorkIntentQueue.enqueue
  split
  · exact .of_progress (.refl _) (keyed_history hkeyed)
  · simp only [MemoryWorkIntentQueue.history, List.map_append]
    refine .quiet _ (.refl _) (fun r hr => ?_) ?_
    · obtain rfl := List.mem_singleton.mp hr
      exact hnone
    · refine (keyed_history hkeyed).append_singleton fun r hr => ?_
      obtain ⟨i, hi, rfl⟩ := List.mem_map.mp hr
      exact hfresh i hi

theorem memory_reserve (hkeyed : Keyed (·.intentId) q.records) {intent : WorkIntent}
    {maxAttempts : Int} {res : Option WorkIntent}
    (h : q.reserveRecoveryAttempt intent maxAttempts = .ok (res, q')) (id : String) :
    HistoryStep q.history (memoryGrant?
      ((id, .reserveRecoveryAttempt intent maxAttempts), .ok (.intent? res))) q'.history
    ∧ (res = none → SameAccount q.history q'.history) := by
  simp only [MemoryWorkIntentQueue.reserveRecoveryAttempt, bind, Except.bind] at h
  split at h
  · cases h
  · next current hcurrent =>
      obtain ⟨hmem, hid, -⟩ := current_spec hcurrent
      split at h
      · cases h
      · next hnext =>
          cases h
          refine ⟨.of_progress (progress_put hkeyed hmem (.of_set _ (by decide) (by decide)))
            (keyed_history hkeyed), fun _ => ?_⟩
          have hwrite : writeRecord current.intentId (current.payload.set
              "recovery_admission_denied" (.bool true)) q.history
              = updateWhere (fun r => r.intentId = current.intentId) deny q.history := by
            refine List.map_congr_left fun r hr => ?_
            obtain ⟨i, hi, rfl⟩ := List.mem_map.mp hr
            split
            · next hid' =>
                obtain rfl := hkeyed.unique hi hmem (of_decide_eq_true hid')
                rfl
            · rfl
          rw [history_put hkeyed hmem, hwrite]
          exact sameAccount_deny _ _
      · next a hnext =>
          cases h
          obtain ⟨-, owner, previous, howner, -, -, -⟩ := nextRecoveryAdmission_inv hnext
          refine ⟨?_, nofun⟩
          rw [history_put hkeyed hmem, memoryGrant?, grantFrom?_set howner, ← hid]
          rw [← hid] at hnext
          exact .grant ⟨owner, current.intentId, maxAttempts, a⟩ current.toRecord
            (List.mem_map_of_mem hmem) rfl howner hnext

theorem memory_reconcile (hkeyed : Keyed (·.intentId) q.records) {intent : WorkIntent}
    {state : BodyState} {u : Unit} (h : q.reconcileRecovery intent state = .ok (u, q')) :
    Progress q.history q'.history := by
  simp only [MemoryWorkIntentQueue.reconcileRecovery, bind, Except.bind] at h
  split at h
  · cases h
  · next current hcurrent =>
      obtain ⟨hmem, -, hleased⟩ := current_spec hcurrent
      split at h
      · cases h
      · next settlement hsettled =>
          obtain ⟨hfirst, hown, hkeyed'⟩ : Progress q.history (q.putSettlement settlement).history
              ∧ current ∈ (q.putSettlement settlement).records
              ∧ Keyed (·.intentId) (q.putSettlement settlement).records := by
            cases settlement with
            | none => exact ⟨.refl _, hmem, hkeyed⟩
            | some settlement =>
                obtain ⟨target, payload⟩ := settlement
                obtain ⟨r, hr, rfl, hterminal, hadvances⟩ := reconciled_inv hsettled
                obtain ⟨ended, hended, rfl⟩ := List.mem_map.mp hr
                refine ⟨?_, mem_updateWhere_of_not hmem (decide_eq_false fun hid => ?_), ?_⟩
                · have hprogress := progress_put hkeyed hended hadvances
                  rwa [history_put hkeyed hended,
                    ← history_settlement (q := q) ended.intentId payload] at hprogress
                · have hstate : ended.state.terminal = true := hterminal
                  rw [← hkeyed.unique hmem hended hid, hleased] at hstate
                  cases hstate
                · have hids : (updateWhere (fun r => r.intentId = ended.intentId)
                      (fun r => { r with payload := payload }) q.records).map (·.intentId)
                      = q.records.map (·.intentId) := map_key_updateWhere fun _ => rfl
                  rw [Keyed, MemoryWorkIntentQueue.putSettlement]
                  exact hids ▸ hkeyed
          split at h
          · cases h
            exact hfirst
          · cases h
            exact hfirst.trans (progress_put hkeyed' hown (.of_set _ (by decide) (by decide)))

/-- **A call of the process-local queue is a step of its history.** -/
theorem memoryStep_history (hkeyed : Keyed (·.intentId) q.records)
    (i : String × QueueCall WorkIntent) (hfresh : ∀ r ∈ q.records, r.intentId ≠ i.1)
    (hi : i.2.Unreserved) :
    HistoryStep q.history (memoryGrant? (i, (memoryStep q i).1)) (memoryStep q i).2.history := by
  obtain ⟨id, call⟩ := i
  have hstep : ∀ {q' : MemoryWorkIntentQueue}, Progress q.history q'.history →
      HistoryStep q.history none q'.history :=
    fun h => .of_progress h (keyed_history hkeyed)
  have hsame : HistoryStep q.history none q.history := hstep (.refl _)
  have hfinish : ∀ intent state, HistoryStep q.history none
      (settle q QueueResult.intent (q.finish intent state)).2.history := by
    intro intent state
    simp only [MemoryWorkIntentQueue.finish, bind, Except.bind]
    cases h : q.current intent (.revisionConflict intent.intentId) with
    | error e => exact hsame
    | ok current => exact hstep (progress_put_same hkeyed (current_spec h).1 rfl rfl)
  simp only [memoryStep]
  cases call with
  | enqueue kind source payload dedupeKey taskId generation =>
      exact historyStep_enqueue hkeyed hfresh hi
  | leaseNext kind =>
      simp only [MemoryWorkIntentQueue.call, settle, MemoryWorkIntentQueue.leaseNext]
      cases h : (q.queuedIntents kind).argmin (-·.priority) with
      | none => exact hsame
      | some selected =>
          have hmem := (List.mem_filter.mp (List.argmin_mem h)).1
          exact hstep (progress_put_same hkeyed hmem rfl rfl)
  | bindAdmission intent checkpointId cursor taskId =>
      simp only [MemoryWorkIntentQueue.call, MemoryWorkIntentQueue.bindAdmission, bind,
        Except.bind]
      cases h : q.current intent .bindingRequiresLease with
      | error e => exact hsame
      | ok current =>
          dsimp only
          split
          · exact hsame
          · split
            · exact hsame
            · next hbinds =>
                exact hstep (progress_put hkeyed (current_spec h).1
                  (advances_bind (r := current.toRecord) (Bool.not_eq_true _ ▸ hbinds)))
  | reserveRecoveryAttempt intent maxAttempts =>
      simp only [MemoryWorkIntentQueue.call]
      rcases h : q.reserveRecoveryAttempt intent maxAttempts with e | ⟨res, q'⟩
      · exact hsame
      · exact (memory_reserve hkeyed h id).1
  | confirmRecovery intent =>
      simp only [MemoryWorkIntentQueue.call, MemoryWorkIntentQueue.confirmRecovery, bind,
        Except.bind]
      cases h : q.current intent .requiresCurrentLease with
      | error e => exact hsame
      | ok current =>
          dsimp only
          cases hconfirmed : confirmedRecoveryPayload current.payload with
          | error e => exact hsame
          | ok payload =>
              exact hstep (progress_put hkeyed (current_spec h).1
                (advances_confirm (r := current.toRecord) hconfirmed))
  | reconcileRecovery intent state =>
      simp only [MemoryWorkIntentQueue.call]
      rcases h : q.reconcileRecovery intent state with e | ⟨u, q'⟩
      · exact hsame
      · exact hstep (memory_reconcile hkeyed h)
  | complete intent => exact hfinish intent _
  | fail intent error => exact hfinish intent _
  | supersedeActive intent reason => exact hfinish intent _
  | supersede kinds reason => exact hstep (progress_updateWhere fun _ _ _ => ⟨rfl, rfl⟩)
  | pendingCount => exact hsame
  | countForTask kind taskId => exact hsame
  | queuedIntents kind => exact hsame
  | getByDedupe dedupeKey => exact hsame
  | issueTaskContinuation checkpointId rev taskId payload dedupeKey generation =>
      exact historyStep_enqueue hkeyed hfresh hi

theorem memoryStep_denied (hkeyed : Keyed (·.intentId) q.records)
    (i : String × QueueCall WorkIntent) (h : MemoryDenied (i, (memoryStep q i).1)) :
    SameAccount q.history (memoryStep q i).2.history := by
  obtain ⟨id, call⟩ := i
  cases call with
  | reserveRecoveryAttempt intent maxAttempts =>
      simp only [memoryStep, MemoryWorkIntentQueue.call] at h ⊢
      rcases hres : q.reserveRecoveryAttempt intent maxAttempts with e | ⟨res, q'⟩
      · rw [hres] at h
        exact h.elim
      · rw [hres] at h
        cases res with
        | none => exact (memory_reserve hkeyed hres id).2 rfl
        | some r => exact h.elim
  | _ => exact h.elim

end Memory

theorem MemoryRun.keyed {log : MemoryLog} {q : MemoryWorkIntentQueue} (h : MemoryRun log q) :
    Keyed (·.intentId) q.records := by
  induction h with
  | start => exact List.nodup_nil
  | next i _ hok ih =>
      have hkeyed := (memoryStep_history ih i hok.1 hok.2).keyed (keyed_history ih)
      rw [Keyed, MemoryWorkIntentQueue.history, List.map_map] at hkeyed
      exact hkeyed

theorem memory_accounting {log : MemoryLog} {q : MemoryWorkIntentQueue} (h : MemoryRun log q) :
    RecoveryAccounting MemoryRun memoryGrant? MemoryDenied (·.history) log :=
  recoveryAccounting_of_steps rfl
    (fun _ _ i hrun hok => memoryStep_history (MemoryRun.keyed hrun) i hok.1 hok.2)
    (fun _ _ i hrun _ hdenied => memoryStep_denied (MemoryRun.keyed hrun) i hdenied) h

/-! ## The bound -/

/-- **Recovery attempts are bounded per episode**, in every scope of the
durable ledger and in the process-local queue. -/
theorem recovery_attempts_bounded :
    (∀ scope log s, RecoveryRun log s →
        RecoveryAccounting RecoveryRun (ledgerGrant? scope) LedgerDenied (·.history scope) log)
      ∧ ∀ log q, MemoryRun log q →
        RecoveryAccounting MemoryRun memoryGrant? MemoryDenied (·.history) log :=
  ⟨fun scope _ _ h => ledger_accounting scope h, fun _ _ h => memory_accounting h⟩

/-- An intent is admitted for task `t` and reserves an attempt. -/
def ledgerAttempt (id : String) (maxAttempts : Int) : List LedgerOp :=
  [.enqueue ⟨"s", "Bot"⟩ ⟨.reflexFact, "lifecycle_recovery", 75, [], none, none, none⟩ none id 0,
    .leaseNext ⟨"s", "Bot"⟩ "p" 60000000 none 1000 1000,
    .bind ⟨"s", "Bot"⟩ id 2 "p" none 0 (some "t") 2000,
    .reserve ⟨"s", "Bot"⟩ id 2 "p" maxAttempts 3000]

/-- The second attempt continues the first one's episode, within its
limit; it is confirmed, and the third opens a new one. -/
def threeAttempts : List LedgerOp :=
  ledgerAttempt "a" 2 ++ ledgerAttempt "b" 5 ++ [.confirm ⟨"s", "Bot"⟩ "b" 2 "p" 4000]
    ++ ledgerAttempt "c" 3

/-- The same intents in the process-local queue; it goes by id and
revision alone. -/
def memoryAttempt (id : String) (maxAttempts : Int) : List (String × QueueCall WorkIntent) :=
  let leased : WorkIntent :=
    ⟨id, 2, .reflexFact, "lifecycle_recovery", 75, [], .leased, none, none, none, 1⟩
  [(id, .enqueue .reflexFact "lifecycle_recovery" [] none none none),
    (id ++ "1", .leaseNext none), (id ++ "2", .bindAdmission leased none 0 (some "t")),
    (id ++ "3", .reserveRecoveryAttempt leased maxAttempts)]

theorem recovery_attempts_bounded_threeAttempts :
    RecoveryAccounting RecoveryRun (ledgerGrant? ⟨"s", "Bot"⟩) LedgerDenied
        (·.history ⟨"s", "Bot"⟩) (exec ledgerStep .empty threeAttempts).1
      ∧ (grantsTo (.str "t") ((exec ledgerStep .empty threeAttempts).1.filterMap
          (ledgerGrant? ⟨"s", "Bot"⟩))).map (fun a => (a.episodeId, a.sequence, a.attempt, a.limit))
        = [("a", 1, 1, 2), ("a", 2, 2, 2), ("c", 3, 1, 3)]
      ∧ RecoveryAccounting MemoryRun memoryGrant? MemoryDenied (·.history)
        (exec memoryStep .empty (memoryAttempt "a" 2)).1 := by
  refine ⟨recovery_attempts_bounded.1 _ _ _ (.of_inputs _ fun _ _ => ?_), by decide,
    recovery_attempts_bounded.2 _ _ (.next _ (.next _ (.next _ (.next _ .start ?_) ?_) ?_) ?_)⟩
  · simp [threeAttempts, ledgerAttempt, LedgerOp.Unreserved]
  · exact ⟨by decide, rfl⟩
  all_goals exact ⟨by decide, trivial⟩

end MineBot
