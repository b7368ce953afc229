import Mathlib
import MineBot.History
import MineBot.WorkIntents

/-!
# What a ledger call does to the rows

Any number of connections and owners work on one ledger, one transaction
at a time. Row by row little can happen (`Touch`, `Granted`), and every
method is shown once to move the rows along that relation in place or to
append one fresh row; the guarantees of the ledger are then facts about
paths of the relation.
-/

namespace MineBot

open Table Relation

/-! ## What may happen to a row -/

/-- The changes of a row other than handing it out. -/
inductive Touch : WorkIntentRow → WorkIntentRow → Prop where
  | write (r : WorkIntentRow) (payload : JsonObject) : Touch r (r.setPayload payload)
  | retire (r : WorkIntentRow) (by_ : String) : r.state = .failed → Touch r (r.markReconciled by_)
  | requeue (r : WorkIntentRow) : r.state = .leased → Touch r r.requeue
  | finish (r : WorkIntentRow) (state : WorkIntentState) (now : Nat)
      (error : Option JsonObject) : r.state = .leased → state.terminal = true →
      Touch r (r.finish state now error)
  | supersede (r : WorkIntentRow) (now : Nat) (reason : String) : r.state = .queued →
      Touch r (r.supersede now reason)

/-- Handing a queued row out. -/
inductive Granted : WorkIntentRow → WorkIntentRow → Prop where
  | lease (r : WorkIntentRow) (owner : String) (expiresAt now : Nat) : r.state = .queued →
      Granted r (r.lease owner expiresAt now)

/-- Any change of a row. -/
def RowStep (r r' : WorkIntentRow) : Prop := Touch r r' ∨ Granted r r'

/-- The row with the columns that updates write blanked out. -/
def WorkIntentRow.fixed (r : WorkIntentRow) : WorkIntentRow :=
  { r with
    revision := 0, payload := [], state := .queued, leaseOwner := none
    leaseExpiresAt := none, attemptCount := 0, leasedAt := none, completedAt := none
    error := none }

theorem RowStep.fixed {r r' : WorkIntentRow} (h : RowStep r r') : r'.fixed = r.fixed := by
  rcases h with h | h <;> cases h <;> rfl

theorem fixed_of_path {r r' : WorkIntentRow} (h : ReflTransGen RowStep r r') :
    r'.fixed = r.fixed := by
  induction h with
  | refl => rfl
  | tail _ hstep ih => exact hstep.fixed.trans ih

/-- What every change of a row keeps. -/
structure Later (r r' : WorkIntentRow) : Prop where
  intentId : r'.intentId = r.intentId
  scopeKey : r'.scopeKey = r.scopeKey
  revision_le : r.revision ≤ r'.revision
  revision_lt : r'.state ≠ r.state → r.revision + 1 ≤ r'.revision
  frozen : r.state.terminal = true → r'.state = r.state ∧ r'.revision = r.revision

theorem Later.refl (r : WorkIntentRow) : Later r r :=
  ⟨rfl, rfl, le_rfl, fun h => absurd rfl h, fun _ => ⟨rfl, rfl⟩⟩

theorem Later.trans {r r' r'' : WorkIntentRow} (h : Later r r') (h' : Later r' r'') :
    Later r r'' where
  intentId := h'.intentId.trans h.intentId
  scopeKey := h'.scopeKey.trans h.scopeKey
  revision_le := le_trans h.revision_le h'.revision_le
  revision_lt := fun hne => by
    have hle := h.revision_le
    have hle' := h'.revision_le
    by_cases hsame : r'.state = r.state
    · have := h'.revision_lt (hsame ▸ hne)
      omega
    · have := h.revision_lt hsame
      omega
  frozen := fun hterm => by
    obtain ⟨hstate, hrev⟩ := h.frozen hterm
    obtain ⟨hstate', hrev'⟩ := h'.frozen (hstate ▸ hterm)
    exact ⟨hstate'.trans hstate, hrev'.trans hrev⟩

theorem RowStep.later {r r' : WorkIntentRow} (h : RowStep r r') : Later r r' := by
  have hbump : ∀ {r r' : WorkIntentRow}, r'.intentId = r.intentId → r'.scopeKey = r.scopeKey →
      r'.revision = r.revision + 1 → r.state.terminal = false → Later r r' :=
    fun hid hscope hrev hterm => ⟨hid, hscope, by omega, fun _ => by omega,
      fun h => by rw [hterm] at h; cases h⟩
  rcases h with h | h
  · cases h with
    | write payload => exact ⟨rfl, rfl, le_rfl, fun h => absurd rfl h, fun _ => ⟨rfl, rfl⟩⟩
    | retire by_ _ => exact ⟨rfl, rfl, le_rfl, fun h => absurd rfl h, fun _ => ⟨rfl, rfl⟩⟩
    | requeue hs => exact hbump rfl rfl rfl (by rw [hs]; rfl)
    | finish _ _ _ hs _ => exact hbump rfl rfl rfl (by rw [hs]; rfl)
    | supersede _ _ hs => exact hbump rfl rfl rfl (by rw [hs]; rfl)
  · cases h with
    | lease _ _ _ hs => exact hbump rfl rfl rfl (by rw [hs]; rfl)

theorem later_of_path {r r' : WorkIntentRow} (h : ReflTransGen RowStep r r') : Later r r' := by
  induction h with
  | refl => exact .refl r
  | tail _ hstep ih => exact ih.trans hstep.later

/-- A row that is leased after changes other than handing out was leased
before, at the same revision. -/
theorem leased_of_touched {r r' : WorkIntentRow} (h : ReflTransGen Touch r r')
    (hs : r'.state = .leased) : r.state = .leased ∧ r.revision = r'.revision := by
  induction h with
  | refl => exact ⟨hs, rfl⟩
  | tail _ hstep ih =>
      cases hstep with
      | write payload => exact ih hs
      | retire by_ hfailed => exact absurd (hfailed.symm.trans hs) (by decide)
      | requeue _ => cases hs
      | finish state _ _ _ hterm =>
          have hstate : state = .leased := hs
          rw [hstate] at hterm
          cases hterm
      | supersede _ _ _ => cases hs

/-! ## What may happen to the table -/

/-- Rows stay in place, each moving along `R`. -/
def Moves (R : WorkIntentRow → WorkIntentRow → Prop) (rows rows' : List WorkIntentRow) : Prop :=
  List.Forall₂ (ReflTransGen R) rows rows'

namespace Moves

variable {R R' : WorkIntentRow → WorkIntentRow → Prop}
variable {rows rows' rows'' : List WorkIntentRow}

theorem refl (rows : List WorkIntentRow) : Moves R rows rows := by
  induction rows with
  | nil => exact .nil
  | cons r rows ih => exact .cons .refl ih

theorem trans (h : Moves R rows rows') (h' : Moves R rows' rows'') : Moves R rows rows'' := by
  induction h generalizing rows'' with
  | nil => exact h'
  | cons hr _ ih =>
      cases h' with
      | cons hr' h' => exact .cons (hr.trans hr') (ih h')

theorem mono (h : Moves R rows rows') (himp : ∀ r r', R r r' → R' r r') : Moves R' rows rows' :=
  List.Forall₂.imp (fun _ _ => ReflTransGen.mono himp _ _) h

theorem append {new new' : List WorkIntentRow} (h : Moves R rows rows')
    (h' : Moves R new new') : Moves R (rows ++ new) (rows' ++ new') := by
  induction h with
  | nil => exact h'
  | cons hr _ ih => exact .cons hr ih

theorem updateWhere {p : WorkIntentRow → Bool} {f : WorkIntentRow → WorkIntentRow}
    (hstep : ∀ r ∈ rows, p r = true → R r (f r)) :
    Moves R rows (Table.updateWhere p f rows) := by
  induction rows with
  | nil => exact .nil
  | cons r rows ih =>
      refine .cons ?_ (ih fun r' hr' => hstep r' (List.mem_cons_of_mem _ hr'))
      dsimp only
      split
      · next hp => exact .single (hstep r List.mem_cons_self hp)
      · exact .refl

theorem kept (h : Moves R rows rows') {r : WorkIntentRow} (hr : r ∈ rows) :
    ∃ r' ∈ rows', ReflTransGen R r r' :=
  paired_of_mem_left h hr

theorem origin (h : Moves R rows rows') {r' : WorkIntentRow} (hr' : r' ∈ rows') :
    ∃ r ∈ rows, ReflTransGen R r r' :=
  paired_of_mem_right h hr'

theorem fixed (h : Moves RowStep rows rows') :
    rows'.map (·.fixed) = rows.map (·.fixed) := by
  induction h with
  | nil => rfl
  | cons hpath _ ih => rw [List.map_cons, List.map_cons, ih, fixed_of_path hpath]

/-- A column of the fixed ones stays as it is. -/
theorem column {α : Type} (h : Moves RowStep rows rows') {f : WorkIntentRow → α}
    (hf : ∀ r, f r.fixed = f r) : rows'.map f = rows.map f := by
  have hcongr : ∀ l : List WorkIntentRow, l.map f = (l.map (·.fixed)).map f := fun l => by
    rw [List.map_map]
    exact List.map_congr_left fun r _ => (hf r).symm
  rw [hcongr rows', hcongr rows, h.fixed]

theorem keyed (h : Moves RowStep rows rows') (hkeyed : Keyed (·.intentId) rows) :
    Keyed (·.intentId) rows' := by
  rw [Keyed, h.column fun _ => rfl]
  exact hkeyed

/-- A row that is leased after changes other than handing out was leased
before, at the same revision. -/
theorem leased_origin (h : Moves Touch rows rows') {r' : WorkIntentRow} (hr' : r' ∈ rows')
    (hs : r'.state = .leased) :
    ∃ r ∈ rows, r.state = .leased ∧ r.intentId = r'.intentId ∧ r.revision = r'.revision := by
  obtain ⟨r, hr, hpath⟩ := h.origin hr'
  obtain ⟨hstate, hrev⟩ := leased_of_touched hpath hs
  have hlater := later_of_path (ReflTransGen.mono (fun _ _ => .inl) _ _ hpath)
  exact ⟨r, hr, hstate, hlater.intentId.symm, hrev⟩

end Moves

/-- Rows move, after rows with fresh ids were appended. -/
def Evolves (rows rows' : List WorkIntentRow) : Prop :=
  ∃ new, (Keyed (·.intentId) rows → Keyed (·.intentId) (rows ++ new))
    ∧ Moves RowStep (rows ++ new) rows'

namespace Evolves

variable {rows rows' rows'' : List WorkIntentRow}

theorem of_moves (h : Moves RowStep rows rows') : Evolves rows rows' :=
  ⟨[], by simp, by simpa using h⟩

theorem of_touch (h : Moves Touch rows rows') : Evolves rows rows' :=
  of_moves (h.mono fun _ _ => .inl)

theorem refl (rows : List WorkIntentRow) : Evolves rows rows := of_moves (.refl rows)

theorem trans (h : Evolves rows rows') (h' : Evolves rows' rows'') : Evolves rows rows'' := by
  obtain ⟨new, hkeyed, hmoves⟩ := h
  obtain ⟨new', hkeyed', hmoves'⟩ := h'
  have hgrown : Moves RowStep (rows ++ new ++ new') (rows' ++ new') := hmoves.append (.refl _)
  refine ⟨new ++ new', fun hk => ?_, by rw [← List.append_assoc]; exact hgrown.trans hmoves'⟩
  have hnext := hkeyed' (hmoves.keyed (hkeyed hk))
  rw [Keyed, hgrown.column fun _ => rfl] at hnext
  rw [← List.append_assoc]
  exact hnext

theorem kept (h : Evolves rows rows') {r : WorkIntentRow} (hr : r ∈ rows) :
    ∃ r' ∈ rows', ReflTransGen RowStep r r' := by
  obtain ⟨new, -, hmoves⟩ := h
  exact hmoves.kept (List.mem_append_left _ hr)

theorem keyed (h : Evolves rows rows') (hkeyed : Keyed (·.intentId) rows) :
    Keyed (·.intentId) rows' := by
  obtain ⟨new, hnew, hmoves⟩ := h
  exact hmoves.keyed (hnew hkeyed)

end Evolves

theorem evolves_insert {s : RuntimeState} {r : WorkIntentRow} (h : s.insertable r = true) :
    Evolves s.workIntents (s.insert r).workIntents := by
  simp only [RuntimeState.insertable, Bool.and_eq_true, List.all_eq_true,
    decide_eq_true_eq] at h
  exact ⟨[r], fun hk => hk.append_singleton h.1.1, .refl _⟩

/-! ## The methods -/

section Methods

variable {s s' : RuntimeState} {scope : RuntimeScope}

/-- `enqueue_work_intent` inserts the row it returns, or finds one. -/
theorem enqueue_spec {d : RuntimeState.WorkIntentDraft} {availableAt : Option Nat}
    {intentId : String} {now : Nat} {r : WorkIntentRow}
    (h : s.enqueueWorkIntent scope d availableAt intentId now = .ok (r, s')) :
    (∃ source, r = RuntimeState.draftRow scope intentId
          { d with source := source, dedupeKey := RuntimeState.normalizedDedupe d.dedupeKey }
          (availableAt.getD (utcNow now)) (utcNow now)
        ∧ s.insertable r = true ∧ s' = s.insert r)
      ∨ (r ∈ s.workIntents ∧ s' = s) := by
  simp only [RuntimeState.enqueueWorkIntent] at h
  split at h
  · cases h
  · next source _ =>
      split at h
      · cases h
      · split at h
        · next hins =>
            obtain ⟨rfl, rfl⟩ := Prod.mk.inj (Except.ok.inj h)
            exact .inl ⟨source, rfl, hins, rfl⟩
        · split at h
          · next existing hfound =>
              cases h
              obtain ⟨key, -, hfound⟩ := Option.bind_eq_some_iff.mp hfound
              exact .inr ⟨List.mem_of_find?_eq_some hfound, rfl⟩
          · cases h

theorem issue_spec {checkpointId : String} {checkpointRevision : Int} {taskId : String}
    {generation : Int} {kind : WorkIntentKind} {source : String} {priority : Int}
    {payload : JsonObject} {dedupeKey intentId : String} {now : Nat} {res : Option WorkIntentRow}
    (h : s.issueCheckpointContinuation scope checkpointId checkpointRevision taskId generation
      kind source priority payload dedupeKey intentId now = .ok (res, s')) :
    (∃ source dedupe r, r = RuntimeState.draftRow scope intentId
          ⟨kind, source, priority, payload, some dedupe, some taskId, some generation⟩
          (utcNow now) (utcNow now)
        ∧ res = some r ∧ s.insertable r = true ∧ s' = s.insert r)
      ∨ ((∀ r ∈ res, r ∈ s.workIntents) ∧ s' = s) := by
  simp only [RuntimeState.issueCheckpointContinuation] at h
  split at h
  · cases h
  · next dedupe _ =>
      split at h
      · cases h; exact .inr ⟨by simp, rfl⟩
      · split at h
        · next existing hfound =>
            cases h
            refine .inr ⟨fun r hr => ?_, rfl⟩
            cases hr
            exact List.mem_of_find?_eq_some hfound
        · split at h
          · cases h
          · next source _ =>
              split at h
              · cases h
              · split at h
                · next hins => cases h; exact .inl ⟨source, dedupe, _, rfl, rfl, hins, rfl⟩
                · cases h

/-- The requeue of expired leases. -/
theorem moves_requeueExpired (kind : Option WorkIntentKind) (now : Nat) :
    Moves Touch s.workIntents (s.requeueExpired scope kind now) := by
  refine .updateWhere fun r _ hp => .requeue r ?_
  simp only [decide_eq_true_eq] at hp
  exact hp.2.1

/-- **What `lease_next_work_intent` does**: it requeues, and then hands
out nothing or the first ready row. -/
theorem leaseNext_spec {leaseOwner : String} {leaseMicros : Nat}
    {kind : Option WorkIntentKind} {now later : Nat} {res : Option WorkIntentRow}
    (h : s.leaseNextWorkIntent scope leaseOwner leaseMicros kind now later = .ok (res, s')) :
    (res = none ∧ s' = { s with workIntents := s.requeueExpired scope kind (utcNow now) }
        ∧ (s.requeueExpired scope kind (utcNow now)).filter
            (RuntimeState.ready scope kind (utcNow now)) = [])
      ∨ ∃ row owner, row ∈ ((s.requeueExpired scope kind (utcNow now)).filter
            (RuntimeState.ready scope kind (utcNow now))).argmin (·.serviceKey)
          ∧ requiredText leaseOwner 256 = some owner
          ∧ res = some (row.lease owner (utcAfter later leaseMicros) (utcNow now))
          ∧ s' = { s with
              workIntents := updateWhere (RuntimeState.selects row)
                (·.lease owner (utcAfter later leaseMicros) (utcNow now))
                (s.requeueExpired scope kind (utcNow now)) } := by
  simp only [RuntimeState.leaseNextWorkIntent] at h
  split at h
  · next hnone =>
      cases h
      exact .inl ⟨rfl, rfl, List.argmin_eq_none.mp hnone⟩
  · next row hsome =>
      split at h
      · cases h
      · next owner howner =>
          split at h
          · cases h
          · cases h
            exact .inr ⟨row, owner, hsome, howner, rfl, rfl⟩

/-- The rows `lease_next_work_intent` chooses from. -/
def waitingRows (s : RuntimeState) (kind : Option WorkIntentKind) : List WorkIntentRow :=
  s.workIntents.filter fun r => r.state = .queued ∧ r.ofKind kind

/-- What `lease_next_work_intent` does in a ledger of one scope where no
lease has expired and every row is available. -/
theorem leaseNext_eq {now : Nat} (hkeyed : Keyed (·.intentId) s.workIntents)
    (hready : ∀ r ∈ s.workIntents, r.scopeKey = scope.key ∧ r.availableAt ≤ utcNow now)
    (hunexpired : ∀ r ∈ s.workIntents, r.state = .leased → r.expired (utcNow now) = false)
    (leaseOwner : String) (leaseMicros : Nat) (kind : Option WorkIntentKind) (later : Nat) :
    s.leaseNextWorkIntent scope leaseOwner leaseMicros kind now later
      = match (waitingRows s kind).argmin (·.serviceKey) with
        | none => .ok (none, s)
        | some row => match requiredText leaseOwner 256 with
          | none => .error (.emptyText "lease_owner")
          | some owner => .ok (some (row.lease owner (utcAfter later leaseMicros) (utcNow now)),
              { s with
                workIntents := updateWhere (RuntimeState.selects row)
                  (·.lease owner (utcAfter later leaseMicros) (utcNow now)) s.workIntents }) := by
  have hrequeue : s.requeueExpired scope kind (utcNow now) = s.workIntents := by
    refine updateWhere_none fun r hr => Bool.eq_false_iff.mpr fun hp => ?_
    simp only [decide_eq_true_eq] at hp
    rw [hunexpired r hr hp.2.1] at hp
    cases hp.2.2.1
  have hwaiting : s.workIntents.filter (RuntimeState.ready scope kind (utcNow now))
      = waitingRows s kind :=
    List.filter_congr fun r hr => by simp [RuntimeState.ready, hready r hr]
  simp only [RuntimeState.leaseNextWorkIntent, hrequeue, hwaiting]
  cases hrow : (waitingRows s kind).argmin (·.serviceKey) with
  | none => rfl
  | some row =>
      have hmem := List.mem_filter.mp (List.argmin_mem hrow)
      simp only [decide_eq_true_eq] at hmem
      have hone : s.workIntents.countP (RuntimeState.selects row) = 1 := by
        refine hkeyed.countP_eq_one hmem.1 (fun x hx => ?_)
          (by simp [RuntimeState.selects, hmem.2.1])
        simp only [RuntimeState.selects, decide_eq_true_eq] at hx
        exact hx.1
      dsimp only
      cases requiredText leaseOwner 256 with
      | none => rfl
      | some owner => simp [hone]

/-- Marking orphans moves the rows along any relation that the mark
keeps. -/
theorem moves_retireOrphans {R : WorkIntentRow → WorkIntentRow → Prop}
    (hmark : ∀ r by_, r.state = .failed → R r (r.markReconciled by_)) (row : WorkIntentRow)
    (ids : List String) (rows : List WorkIntentRow) :
    Moves R rows (RuntimeState.retireOrphans row ids rows) := by
  induction ids generalizing rows with
  | nil => exact .refl _
  | cons id ids ih =>
      refine Moves.trans (.updateWhere fun r _ hp => hmark r _ ?_) (ih _)
      simp only [WorkIntentRow.orphaned, decide_eq_true_eq, Bool.and_eq_true] at hp
      exact hp.2.2.1

theorem moves_retire {R : WorkIntentRow → WorkIntentRow → Prop}
    (hmark : ∀ r by_, r.state = .failed → R r (r.markReconciled by_)) {row : WorkIntentRow}
    {payload : JsonObject} {rows rows' : List WorkIntentRow}
    (h : RuntimeState.retireReconciledOrphans row payload rows = .ok rows') :
    Moves R rows rows' := by
  unfold RuntimeState.retireReconciledOrphans at h
  split at h
  · cases h; exact .refl _
  · cases he : RuntimeState.orphanEntries payload with
    | error e => rw [he] at h; cases h
    | ok orphans =>
        rw [he] at h
        obtain rfl := Except.ok.inj h
        exact moves_retireOrphans hmark _ _ _

theorem moves_writePayload (intentId : String) (payload : JsonObject)
    (rows : List WorkIntentRow) :
    Moves Touch rows (RuntimeState.writePayload intentId payload rows) :=
  .updateWhere fun r _ _ => .write r payload

/-- The intent is leased at this revision. -/
def Holds (rows : List WorkIntentRow) (intentId : String) (revision : Int) : Prop :=
  ∃ r ∈ rows, r.intentId = intentId ∧ r.revision = revision ∧ r.state = .leased

theorem leasedRow_spec {intentId : String} {revision : Int} {leaseOwner : String}
    {requireLive : Bool} {now : Nat} {r : WorkIntentRow}
    (h : s.leasedRow scope intentId revision leaseOwner requireLive now = some r) :
    r ∈ s.workIntents ∧ r.intentId = intentId ∧ r.scopeKey = scope.key ∧ r.revision = revision
      ∧ r.state = .leased := by
  have hp := List.find?_some h
  simp only [decide_eq_true_eq] at hp
  exact ⟨List.mem_of_find?_eq_some h, hp.1, hp.2.1, hp.2.2.1, hp.2.2.2.1⟩

theorem holds_of_leasedRow {intentId : String} {revision : Int} {leaseOwner : String}
    {requireLive : Bool} {now : Nat} {r : WorkIntentRow}
    (h : s.leasedRow scope intentId revision leaseOwner requireLive now = some r) :
    Holds s.workIntents intentId revision := by
  obtain ⟨hr, hid, -, hrev, hs⟩ := leasedRow_spec h
  exact ⟨r, hr, hid, hrev, hs⟩

variable {intentId leaseOwner : String} {revision : Int} {now : Nat}

theorem bind_inv {checkpointId taskId : Option String} {cursor : Int} {r : WorkIntentRow}
    (h : s.bindWorkIntentAdmission scope intentId revision leaseOwner checkpointId cursor
      taskId now = .ok (r, s')) :
    ∃ row rows payload, s.leasedRow scope intentId revision leaseOwner true now = some row
      ∧ RuntimeState.bindsOtherwise row.payload
        (RuntimeState.admissionEntries checkpointId cursor taskId) = false
      ∧ payload = row.payload.update (RuntimeState.admissionEntries checkpointId cursor taskId)
      ∧ RuntimeState.retireReconciledOrphans row payload
        (RuntimeState.writePayload intentId payload s.workIntents) = .ok rows
      ∧ r = row.setPayload payload ∧ s' = { s with workIntents := rows } := by
  simp only [RuntimeState.bindWorkIntentAdmission] at h
  split at h
  · cases h
  · next row hrow =>
      split at h
      · cases h
      · split at h
        · cases h
        · next hbinds =>
            split at h
            · cases h
            · next rows hretire =>
                cases h
                exact ⟨row, rows, _, hrow, by simpa using hbinds, rfl, hretire, rfl, rfl⟩

theorem bind_spec {checkpointId taskId : Option String} {cursor : Int} {r : WorkIntentRow}
    (h : s.bindWorkIntentAdmission scope intentId revision leaseOwner checkpointId cursor
      taskId now = .ok (r, s')) :
    Holds s.workIntents intentId revision ∧ Moves Touch s.workIntents s'.workIntents := by
  obtain ⟨row, rows, payload, hrow, -, -, hretire, -, rfl⟩ := bind_inv h
  exact ⟨holds_of_leasedRow hrow, (moves_writePayload ..).trans (moves_retire .retire hretire)⟩

/-- `reserve_recovery_attempt` writes a grant or a denial. -/
theorem reserve_inv {maxAttempts : Int} {r : Option WorkIntentRow}
    (h : s.reserveRecoveryAttempt scope intentId revision leaseOwner maxAttempts now
      = .ok (r, s')) :
    ∃ row admission, s.leasedRow scope intentId revision leaseOwner true now = some row
      ∧ nextRecoveryAdmission row.payload (s.history scope) intentId maxAttempts = .ok admission
      ∧ r = admission.map (fun a =>
        row.setPayload (row.payload.set "recovery_admission" a.toJson))
      ∧ s' = { s with
          workIntents := RuntimeState.writePayload intentId
            (match admission with
              | none => row.payload.set "recovery_admission_denied" (.bool true)
              | some a => row.payload.set "recovery_admission" a.toJson) s.workIntents } := by
  simp only [RuntimeState.reserveRecoveryAttempt] at h
  split at h
  · cases h
  · next row hrow =>
      split at h
      · cases h
      · next hnext => cases h; exact ⟨row, none, hrow, hnext, rfl, rfl⟩
      · next a hnext => cases h; exact ⟨row, some a, hrow, hnext, rfl, rfl⟩

theorem reserve_spec {maxAttempts : Int} {r : Option WorkIntentRow}
    (h : s.reserveRecoveryAttempt scope intentId revision leaseOwner maxAttempts now
      = .ok (r, s')) :
    Holds s.workIntents intentId revision ∧ Moves Touch s.workIntents s'.workIntents := by
  obtain ⟨row, admission, hrow, -, -, rfl⟩ := reserve_inv h
  exact ⟨holds_of_leasedRow hrow, moves_writePayload ..⟩

theorem confirm_inv {r : WorkIntentRow}
    (h : s.confirmRecovery scope intentId revision leaseOwner now = .ok (r, s')) :
    ∃ row payload, s.leasedRow scope intentId revision leaseOwner false now = some row
      ∧ confirmedRecoveryPayload row.payload = .ok payload ∧ r = row.setPayload payload
      ∧ s' = { s with
        workIntents := RuntimeState.writePayload intentId payload s.workIntents } := by
  simp only [RuntimeState.confirmRecovery] at h
  split at h
  · cases h
  · next row hrow =>
      split at h
      · cases h
      · next payload hconfirmed => cases h; exact ⟨row, payload, hrow, hconfirmed, rfl, rfl⟩

theorem confirm_spec {r : WorkIntentRow}
    (h : s.confirmRecovery scope intentId revision leaseOwner now = .ok (r, s')) :
    Holds s.workIntents intentId revision ∧ Moves Touch s.workIntents s'.workIntents := by
  obtain ⟨row, payload, hrow, -, -, rfl⟩ := confirm_inv h
  exact ⟨holds_of_leasedRow hrow, moves_writePayload ..⟩

/-- `reconcile_recovery` does nothing, or writes a settlement and its own
mark. -/
theorem reconcile_inv {state : BodyState} {u : Unit}
    (h : s.reconcileRecovery scope intentId revision leaseOwner state now = .ok (u, s')) :
    ∃ row, s.leasedRow scope intentId revision leaseOwner true now = some row
      ∧ (s' = s ∨ ∃ settlement,
        reconciledRecoveryPayload row.toRecord (s.history scope) state = .ok settlement
        ∧ s' = { s with
            workIntents := if row.payload.has "recovery_reconciled_intent_id" then
                RuntimeState.writeSettlement settlement s.workIntents
              else RuntimeState.writePayload intentId
                (RuntimeState.reconciledMark row.payload (settlement.map Prod.fst))
                (RuntimeState.writeSettlement settlement s.workIntents) }) := by
  simp only [RuntimeState.reconcileRecovery] at h
  split at h
  · cases h
  · next row hrow =>
      refine ⟨row, hrow, ?_⟩
      split at h
      · cases h
      · split at h
        · cases h
        · split at h
          · cases h; exact .inl rfl
          · split at h
            · cases h
            · next settlement hsettled =>
                obtain ⟨-, rfl⟩ := Prod.mk.inj (Except.ok.inj h)
                exact .inr ⟨settlement, hsettled, rfl⟩

theorem moves_writeSettlement (settlement : Option (String × JsonObject))
    (rows : List WorkIntentRow) :
    Moves Touch rows (RuntimeState.writeSettlement settlement rows) := by
  unfold RuntimeState.writeSettlement
  split
  · exact moves_writePayload ..
  · exact .refl _

theorem reconcile_spec {state : BodyState} {u : Unit}
    (h : s.reconcileRecovery scope intentId revision leaseOwner state now = .ok (u, s')) :
    Holds s.workIntents intentId revision ∧ Moves Touch s.workIntents s'.workIntents := by
  obtain ⟨row, hrow, rfl | ⟨settlement, -, rfl⟩⟩ := reconcile_inv h
  · exact ⟨holds_of_leasedRow hrow, .refl _⟩
  · refine ⟨holds_of_leasedRow hrow, ?_⟩
    dsimp only
    split
    · exact moves_writeSettlement ..
    · exact (moves_writeSettlement ..).trans (moves_writePayload ..)

/-- The condition of `finish_work_intent`'s update. -/
def finishToken (intentId : String) (revision : Int) (r : WorkIntentRow) : Bool :=
  r.intentId = intentId ∧ r.revision = revision ∧ r.state = .leased

theorem finish_inv {state : WorkIntentState} {error : Option JsonObject} {r : WorkIntentRow}
    (h : s.finishWorkIntent intentId revision state error now = .ok (r, s')) :
    ∃ row rows, state.terminal = true
      ∧ s.workIntents.find? (finishToken intentId revision) = some row
      ∧ r = row.finish state (utcNow now) error
      ∧ (if state = .completed then
          RuntimeState.retireReconciledOrphans r r.payload
            (updateWhere (finishToken intentId revision) (·.finish state (utcNow now) error)
              s.workIntents) = .ok rows
        else rows = updateWhere (finishToken intentId revision)
          (·.finish state (utcNow now) error) s.workIntents)
      ∧ s' = { s with workIntents := rows } := by
  simp only [RuntimeState.finishWorkIntent] at h
  split at h
  · cases h
  · next hterm =>
      have hterm : state.terminal = true := by simpa using hterm
      split at h
      · cases h
      · next row hrow =>
          split at h
          · next hdone =>
              split at h
              · cases h
              · next rows hretire =>
                  cases h
                  exact ⟨row, rows, hterm, hrow, rfl, by rw [if_pos hdone]; exact hretire, rfl⟩
          · next hdone =>
              cases h
              exact ⟨row, _, hterm, hrow, rfl, by rw [if_neg hdone]; rfl, rfl⟩

theorem finishToken_spec {row : WorkIntentRow}
    (h : s.workIntents.find? (finishToken intentId revision) = some row) :
    row ∈ s.workIntents ∧ row.intentId = intentId ∧ row.revision = revision
      ∧ row.state = .leased := by
  have hp := List.find?_some h
  simp only [finishToken, decide_eq_true_eq] at hp
  exact ⟨List.mem_of_find?_eq_some h, hp⟩

/-- `finish_work_intent` ends the lease its token names. -/
theorem finish_spec {state : WorkIntentState} {error : Option JsonObject} {r : WorkIntentRow}
    (h : s.finishWorkIntent intentId revision state error now = .ok (r, s')) :
    Holds s.workIntents intentId revision ∧ Moves Touch s.workIntents s'.workIntents
      ∧ ∃ r' ∈ s'.workIntents, r'.intentId = intentId ∧ r'.state.terminal = true := by
  obtain ⟨row, rows, hterm, hrow, rfl, hrows, rfl⟩ := finish_inv h
  obtain ⟨hmem, hid, hrev, hs⟩ := finishToken_spec hrow
  have hfinish : Moves Touch s.workIntents (updateWhere (finishToken intentId revision)
      (·.finish state (utcNow now) error) s.workIntents) := by
    refine .updateWhere fun r _ hr => .finish r _ _ _ ?_ hterm
    simp only [finishToken, decide_eq_true_eq] at hr
    exact hr.2.2
  have hdone : row.finish state (utcNow now) error ∈ updateWhere
      (finishToken intentId revision) (·.finish state (utcNow now) error) s.workIntents :=
    mem_updateWhere_of hmem (List.find?_some hrow)
  refine ⟨⟨row, hmem, hid, hrev, hs⟩, ?_⟩
  split at hrows
  · have hstep := moves_retire Touch.retire hrows
    obtain ⟨r', hr', hpath⟩ := hstep.kept hdone
    have hlater := later_of_path (ReflTransGen.mono (fun _ _ => .inl) _ _ hpath)
    refine ⟨hfinish.trans hstep, r', hr', hlater.intentId.trans hid, ?_⟩
    rw [(hlater.frozen hterm).1]
    exact hterm
  · rw [hrows]
    exact ⟨hfinish, _, hdone, hid, hterm⟩

theorem moves_supersede (kinds : List WorkIntentKind) (reason : String) (now : Nat) :
    Moves Touch s.workIntents
      (s.supersedeQueuedWorkIntents scope kinds reason now).2.workIntents := by
  refine .updateWhere fun r _ hr => .supersede r _ _ ?_
  simp only [decide_eq_true_eq] at hr
  exact hr.2.1

/-- `abandon_leased_work_intents` never raises. It reports what is
abandonable and fails what is leased. -/
theorem abandon_eq (reason : String) (now : Nat) :
    s.abandonLeasedWorkIntents scope reason now
      = .ok ((s.workIntents.filter (RuntimeState.abandonable scope reason)).insertionSort
          (fun a b => RuntimeState.abandonOrder a b),
        { s with
          workIntents := updateWhere (fun r => r.scopeKey = scope.key ∧ r.state = .leased)
            (·.finish .failed (utcNow now) (some [("reason", .str reason)])) s.workIntents }) := by
  generalize hrows : (s.workIntents.filter (RuntimeState.abandonable scope reason)).insertionSort
    (fun a b => RuntimeState.abandonOrder a b) = rows
  have hmem : ∀ r, r ∈ rows ↔ r ∈ s.workIntents
      ∧ RuntimeState.abandonable scope reason r = true := fun r => by
    rw [← hrows, List.mem_insertionSort, List.mem_filter]
  have hcount : s.workIntents.countP (fun r => r.scopeKey = scope.key ∧ r.state = .leased)
      = rows.countP fun r => r.state = .leased := by
    rw [← hrows, (List.perm_insertionSort _ _).countP_eq, List.countP_filter]
    refine List.countP_congr fun r _ => ?_
    simp only [RuntimeState.abandonable, Bool.and_eq_true, decide_eq_true_eq]
    tauto
  simp only [RuntimeState.abandonLeasedWorkIntents, hrows, hcount]
  split
  · next hempty =>
      have hnone : ∀ r ∈ s.workIntents,
          (decide (r.scopeKey = scope.key ∧ r.state = .leased)) = false := fun r hr => by
        refine Bool.eq_false_iff.mpr fun hp => ?_
        simp only [decide_eq_true_eq] at hp
        have hin := (hmem r).mpr ⟨hr, by simp [RuntimeState.abandonable, hp]⟩
        rw [List.isEmpty_iff.mp hempty] at hin
        cases hin
      rw [updateWhere_none hnone, List.isEmpty_iff.mp hempty]
  · simp

theorem moves_abandon {reason : String} {rows : List WorkIntentRow}
    (h : s.abandonLeasedWorkIntents scope reason now = .ok (rows, s')) :
    Moves Touch s.workIntents s'.workIntents := by
  rw [abandon_eq] at h
  cases h
  refine .updateWhere fun r _ hr => .finish r _ _ _ ?_ rfl
  simp only [decide_eq_true_eq] at hr
  exact hr.2

end Methods

/-! ## Runs of the ledger -/

/-- A call of some connection, with the clock readings and the fresh id
it uses. `environment` is everybody else's change to tasks and
checkpoints. -/
inductive LedgerOp where
  | enqueue (scope : RuntimeScope) (draft : RuntimeState.WorkIntentDraft)
      (availableAt : Option Nat) (intentId : String) (now : Nat)
  | issueContinuation (scope : RuntimeScope) (checkpointId : String)
      (checkpointRevision : Int) (taskId : String) (generation : Int)
      (kind : WorkIntentKind) (source : String) (priority : Int) (payload : JsonObject)
      (dedupeKey intentId : String) (now : Nat)
  | leaseNext (scope : RuntimeScope) (leaseOwner : String) (leaseMicros : Nat)
      (kind : Option WorkIntentKind) (now later : Nat)
  | bind (scope : RuntimeScope) (intentId : String) (revision : Int) (leaseOwner : String)
      (checkpointId : Option String) (evidenceCursor : Int) (taskId : Option String)
      (now : Nat)
  | reserve (scope : RuntimeScope) (intentId : String) (revision : Int)
      (leaseOwner : String) (maxAttempts : Int) (now : Nat)
  | confirm (scope : RuntimeScope) (intentId : String) (revision : Int)
      (leaseOwner : String) (now : Nat)
  | reconcile (scope : RuntimeScope) (intentId : String) (revision : Int)
      (leaseOwner : String) (state : BodyState) (now : Nat)
  | finish (intentId : String) (revision : Int) (state : WorkIntentState)
      (error : Option JsonObject) (now : Nat)
  | supersede (scope : RuntimeScope) (kinds : List WorkIntentKind) (reason : String)
      (now : Nat)
  | abandon (scope : RuntimeScope) (reason : String) (now : Nat)
  | environment (tasks : List TaskRow) (checkpoints : List CheckpointRow)

inductive LedgerResult where
  | row (r : WorkIntentRow)
  | row? (r : Option WorkIntentRow)
  | leased (r : Option WorkIntentRow)
  | rows (rs : List WorkIntentRow)
  | count (n : Nat)
  | done

abbrev LedgerOutput := Except StoreError LedgerResult

/-- Commit, or roll back. -/
def commit {α : Type} (s : RuntimeState) (f : α → LedgerResult) :
    Except StoreError (α × RuntimeState) → LedgerOutput × RuntimeState
  | .ok (a, s') => (.ok (f a), s')
  | .error e => (.error e, s)

def ledgerStep (s : RuntimeState) : LedgerOp → LedgerOutput × RuntimeState
  | .enqueue scope draft availableAt intentId now =>
      commit s .row (s.enqueueWorkIntent scope draft availableAt intentId now)
  | .issueContinuation scope checkpointId checkpointRevision taskId generation kind source
      priority payload dedupeKey intentId now =>
      commit s .row? (s.issueCheckpointContinuation scope checkpointId checkpointRevision
        taskId generation kind source priority payload dedupeKey intentId now)
  | .leaseNext scope leaseOwner leaseMicros kind now later =>
      commit s .leased (s.leaseNextWorkIntent scope leaseOwner leaseMicros kind now later)
  | .bind scope intentId revision leaseOwner checkpointId evidenceCursor taskId now =>
      commit s .row (s.bindWorkIntentAdmission scope intentId revision leaseOwner
        checkpointId evidenceCursor taskId now)
  | .reserve scope intentId revision leaseOwner maxAttempts now =>
      commit s .row? (s.reserveRecoveryAttempt scope intentId revision leaseOwner
        maxAttempts now)
  | .confirm scope intentId revision leaseOwner now =>
      commit s .row (s.confirmRecovery scope intentId revision leaseOwner now)
  | .reconcile scope intentId revision leaseOwner state now =>
      commit s (fun _ => .done)
        (s.reconcileRecovery scope intentId revision leaseOwner state now)
  | .finish intentId revision state error now =>
      commit s .row (s.finishWorkIntent intentId revision state error now)
  | .supersede scope kinds reason now =>
      let (n, s') := s.supersedeQueuedWorkIntents scope kinds reason now
      (.ok (.count n), s')
  | .abandon scope reason now =>
      commit s .rows (s.abandonLeasedWorkIntents scope reason now)
  | .environment tasks checkpoints =>
      (.ok .done, { s with tasks := tasks, checkpoints := checkpoints })

abbrev LedgerLog := List (LedgerOp × LedgerOutput)

/-- Any interleaving of calls, from an empty database. -/
abbrev LedgerRun : LedgerLog → RuntimeState → Prop :=
  Run ledgerStep (fun _ _ _ => True) .empty

/-- The token a call presents. -/
def LedgerOp.token? : LedgerOp → Option (String × Int)
  | .bind _ intentId revision _ _ _ _ _ => some (intentId, revision)
  | .reserve _ intentId revision _ _ _ => some (intentId, revision)
  | .confirm _ intentId revision _ _ => some (intentId, revision)
  | .reconcile _ intentId revision _ _ _ => some (intentId, revision)
  | .finish intentId revision _ _ _ => some (intentId, revision)
  | _ => none

/-- What an entry of the log handed out. -/
def leaseOf? : LedgerOp × LedgerOutput → Option (String × Int)
  | (_, .ok (.leased (some r))) => some (r.intentId, r.revision)
  | _ => none

/-- Every (intent, revision) that a `lease_next` returned, in order. -/
def leases (log : LedgerLog) : List (String × Int) := log.filterMap leaseOf?

/-- The most recent lease of an intent. -/
def lastLease? (log : LedgerLog) (intentId : String) : Option Int :=
  (((leases log).filter (·.1 = intentId)).getLast?).map Prod.snd

/-- The intent an entry finished. -/
def finishOf? : LedgerOp × LedgerOutput → Option String
  | (.finish intentId _ _ _ _, .ok _) => some intentId
  | _ => none

def finishes (log : LedgerLog) : List String := log.filterMap finishOf?

/-! ## What one call can do -/

/-- The row a call drafts. -/
def LedgerOp.Drafts : LedgerOp → WorkIntentRow → Prop
  | .enqueue scope d availableAt intentId now, r => ∃ source,
      r = RuntimeState.draftRow scope intentId
        { d with source := source, dedupeKey := RuntimeState.normalizedDedupe d.dedupeKey }
        (availableAt.getD (utcNow now)) (utcNow now)
  | .issueContinuation scope _ _ taskId generation kind _ priority payload _ intentId now, r =>
      ∃ source dedupe, r = RuntimeState.draftRow scope intentId
        ⟨kind, source, priority, payload, some dedupe, some taskId, some generation⟩
        (utcNow now) (utcNow now)
  | _, _ => False

theorem LedgerOp.Drafts.queued {op : LedgerOp} {r : WorkIntentRow} (h : op.Drafts r) :
    r.state = .queued := by
  cases op with
  | enqueue => obtain ⟨_, rfl⟩ := h; rfl
  | issueContinuation => obtain ⟨_, _, rfl⟩ := h; rfl
  | _ => exact h.elim

/-- The ways a call can go. A refused one changes nothing; one that
presents a token and succeeds presents the token of a live row. -/
inductive Outcome (s : RuntimeState) : LedgerOp × LedgerOutput → RuntimeState → Prop where
  | refused (op : LedgerOp) (e : StoreError) : Outcome s (op, .error e) s
  | moved (op : LedgerOp) (result : LedgerResult) (s' : RuntimeState) :
      Moves Touch s.workIntents s'.workIntents →
      leaseOf? (op, .ok result) = none → finishOf? (op, .ok result) = none →
      (∀ t, op.token? = some t → Holds s.workIntents t.1 t.2) →
      Outcome s (op, .ok result) s'
  | inserted (op : LedgerOp) (result : LedgerResult) (r : WorkIntentRow) :
      op.Drafts r → s.insertable r = true → op.token? = none →
      leaseOf? (op, .ok result) = none → finishOf? (op, .ok result) = none →
      Outcome s (op, .ok result) (s.insert r)
  | finished (intentId : String) (revision : Int) (state : WorkIntentState)
      (error : Option JsonObject) (now : Nat) (r : WorkIntentRow) (s' : RuntimeState) :
      Moves Touch s.workIntents s'.workIntents → Holds s.workIntents intentId revision →
      (∃ r' ∈ s'.workIntents, r'.intentId = intentId ∧ r'.state.terminal = true) →
      Outcome s (.finish intentId revision state error now, .ok (.row r)) s'
  | granted (scope : RuntimeScope) (leaseOwner : String) (leaseMicros : Nat)
      (kind : Option WorkIntentKind) (now later : Nat) (mid : List WorkIntentRow)
      (row : WorkIntentRow) (owner : String) (expiresAt leasedAt : Nat) (s' : RuntimeState) :
      Moves Touch s.workIntents mid → row ∈ mid → row.state = .queued →
      s'.workIntents
        = updateWhere (RuntimeState.selects row) (·.lease owner expiresAt leasedAt) mid →
      Outcome s (.leaseNext scope leaseOwner leaseMicros kind now later,
        .ok (.leased (some (row.lease owner expiresAt leasedAt)))) s'

theorem outcome_leaseNext (s : RuntimeState) (scope : RuntimeScope) (leaseOwner : String)
    (leaseMicros : Nat) (kind : Option WorkIntentKind) (now later : Nat) :
    Outcome s (.leaseNext scope leaseOwner leaseMicros kind now later,
      (ledgerStep s (.leaseNext scope leaseOwner leaseMicros kind now later)).1)
      (ledgerStep s (.leaseNext scope leaseOwner leaseMicros kind now later)).2 := by
  simp only [ledgerStep]
  rcases h : s.leaseNextWorkIntent scope leaseOwner leaseMicros kind now later with
    e | ⟨res, s'⟩
  · exact .refused _ e
  · rcases leaseNext_spec h with ⟨rfl, rfl, -⟩ | ⟨row, owner, hrow, -, rfl, rfl⟩
    · exact .moved _ _ _ (moves_requeueExpired ..) rfl rfl nofun
    · obtain ⟨hmem, hready⟩ := List.mem_filter.mp (List.argmin_mem hrow)
      simp only [RuntimeState.ready, decide_eq_true_eq] at hready
      exact .granted _ _ _ _ _ _ _ row _ _ _ _ (moves_requeueExpired ..) hmem
        hready.2.1 rfl

/-- **What one call can do.** -/
theorem ledgerStep_outcome (s : RuntimeState) (op : LedgerOp) :
    Outcome s (op, (ledgerStep s op).1) (ledgerStep s op).2 := by
  cases op with
  | enqueue scope draft availableAt intentId now =>
      simp only [ledgerStep]
      rcases h : s.enqueueWorkIntent scope draft availableAt intentId now with e | ⟨r, s'⟩
      · exact .refused _ e
      · rcases enqueue_spec h with ⟨source, rfl, hins, rfl⟩ | ⟨-, rfl⟩
        · exact .inserted _ _ _ ⟨source, rfl⟩ hins rfl rfl rfl
        · exact .moved _ _ _ (.refl _) rfl rfl nofun
  | issueContinuation scope checkpointId rev taskId gen kind source priority payload dedupe id now =>
      simp only [ledgerStep]
      rcases h : s.issueCheckpointContinuation scope checkpointId rev taskId gen kind source
        priority payload dedupe id now with e | ⟨r, s'⟩
      · exact .refused _ e
      · rcases issue_spec h with ⟨source, dedupe, r, rfl, rfl, hins, rfl⟩ | ⟨-, rfl⟩
        · exact .inserted _ _ _ ⟨source, dedupe, rfl⟩ hins rfl rfl rfl
        · exact .moved _ _ _ (.refl _) rfl rfl nofun
  | leaseNext scope leaseOwner leaseMicros kind now later => exact outcome_leaseNext ..
  | bind scope intentId revision leaseOwner checkpointId cursor taskId now =>
      simp only [ledgerStep]
      rcases h : s.bindWorkIntentAdmission scope intentId revision leaseOwner checkpointId
        cursor taskId now with e | ⟨r, s'⟩
      · exact .refused _ e
      · obtain ⟨hholds, hmoves⟩ := bind_spec h
        exact .moved _ _ _ hmoves rfl rfl fun t ht => by cases ht; exact hholds
  | reserve scope intentId revision leaseOwner maxAttempts now =>
      simp only [ledgerStep]
      rcases h : s.reserveRecoveryAttempt scope intentId revision leaseOwner maxAttempts now
        with e | ⟨r, s'⟩
      · exact .refused _ e
      · obtain ⟨hholds, hmoves⟩ := reserve_spec h
        exact .moved _ _ _ hmoves rfl rfl fun t ht => by cases ht; exact hholds
  | confirm scope intentId revision leaseOwner now =>
      simp only [ledgerStep]
      rcases h : s.confirmRecovery scope intentId revision leaseOwner now with e | ⟨r, s'⟩
      · exact .refused _ e
      · obtain ⟨hholds, hmoves⟩ := confirm_spec h
        exact .moved _ _ _ hmoves rfl rfl fun t ht => by cases ht; exact hholds
  | reconcile scope intentId revision leaseOwner state now =>
      simp only [ledgerStep]
      rcases h : s.reconcileRecovery scope intentId revision leaseOwner state now
        with e | ⟨r, s'⟩
      · exact .refused _ e
      · obtain ⟨hholds, hmoves⟩ := reconcile_spec h
        exact .moved _ _ _ hmoves rfl rfl fun t ht => by cases ht; exact hholds
  | finish intentId revision state error now =>
      simp only [ledgerStep]
      rcases h : s.finishWorkIntent intentId revision state error now with e | ⟨r, s'⟩
      · exact .refused _ e
      · obtain ⟨hholds, hmoves, hdone⟩ := finish_spec h
        exact .finished _ _ _ _ _ _ _ hmoves hholds hdone
  | supersede scope kinds reason now =>
      exact .moved _ _ _ (moves_supersede ..) rfl rfl nofun
  | abandon scope reason now =>
      simp only [ledgerStep]
      rcases h : s.abandonLeasedWorkIntents scope reason now with e | ⟨r, s'⟩
      · exact .refused _ e
      · exact .moved _ _ _ (moves_abandon h) rfl rfl nofun
  | environment tasks checkpoints => exact .moved _ _ _ (.refl _) rfl rfl nofun

/-- A call leaves every row in its place, or appends the row it drafts. -/
theorem Outcome.rows {s s' : RuntimeState} {op : LedgerOp} {output : LedgerOutput}
    (h : Outcome s (op, output) s') : Moves RowStep s.workIntents s'.workIntents
      ∨ ∃ r, op.Drafts r ∧ s.insertable r = true ∧ s' = s.insert r := by
  cases h with
  | refused => exact .inl (.refl _)
  | moved _ _ _ hmoves => exact .inl (hmoves.mono fun _ _ => .inl)
  | inserted _ _ r hdrafts hins => exact .inr ⟨r, hdrafts, hins, rfl⟩
  | finished _ _ _ _ _ _ _ hmoves => exact .inl (hmoves.mono fun _ _ => .inl)
  | granted scope leaseOwner leaseMicros kind now later mid row owner expiresAt leasedAt
      _ hmid _ _ hrows =>
      rw [hrows]
      refine .inl ((hmid.mono fun _ _ => .inl).trans (.updateWhere fun r _ hr => .inr ?_))
      simp only [RuntimeState.selects, decide_eq_true_eq] at hr
      exact .lease r _ _ _ hr.2.2

theorem Outcome.evolves {s s' : RuntimeState} {op : LedgerOp} {output : LedgerOutput}
    (h : Outcome s (op, output) s') : Evolves s.workIntents s'.workIntents := by
  rcases h.rows with hmoves | ⟨r, -, hins, rfl⟩
  · exact .of_moves hmoves
  · exact evolves_insert hins

end MineBot
