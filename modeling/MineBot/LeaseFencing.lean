import MineBot.LedgerSteps

/-!
# Lease fencing

Any number of connections and owners work on one ledger, one transaction
at a time. A lease is fenced by the revision it was handed out at: each
change of state bumps the revision, and what does not (writing a payload,
retiring an orphan) leaves both alone. What a call can do to the rows is
known from `LedgerSteps`; the fencing facts are facts about paths of its
relation.
-/

namespace MineBot

open Table Relation

/-! ## The fencing invariant -/

structure Fenced (log : LedgerLog) (s : RuntimeState) : Prop where
  keyed : Keyed (·.intentId) s.workIntents
  leased_once : (leases log).Nodup
  leased_le : ∀ t ∈ leases log, ∃ r ∈ s.workIntents, r.intentId = t.1 ∧ t.2 ≤ r.revision
  holder : ∀ r ∈ s.workIntents, r.state = .leased →
    lastLease? log r.intentId = some r.revision
  finished_once : (finishes log).Nodup
  finished_terminal : ∀ id ∈ finishes log,
    ∃ r ∈ s.workIntents, r.intentId = id ∧ r.state.terminal = true

theorem leases_append_singleton (log : LedgerLog) (entry : LedgerOp × LedgerOutput) :
    leases (log ++ [entry]) = leases log ++ (leaseOf? entry).toList := by
  rw [leases, leases, List.filterMap_append]
  cases h : leaseOf? entry <;> simp [h]

theorem finishes_append_singleton (log : LedgerLog) (entry : LedgerOp × LedgerOutput) :
    finishes (log ++ [entry]) = finishes log ++ (finishOf? entry).toList := by
  rw [finishes, finishes, List.filterMap_append]
  cases h : finishOf? entry <;> simp [h]

theorem lastLease?_append_lease (log : LedgerLog) {entry : LedgerOp × LedgerOutput}
    {t : String × Int} (hentry : leaseOf? entry = some t) (id : String) :
    lastLease? (log ++ [entry]) id = if t.1 = id then some t.2 else lastLease? log id := by
  rw [lastLease?, leases_append_singleton, hentry, Option.toList_some, List.filter_append]
  by_cases hid : t.1 = id
  · simp [hid]
  · simp [hid, lastLease?]

theorem lastLease?_congr {log log' : LedgerLog} (h : leases log' = leases log) (id : String) :
    lastLease? log' id = lastLease? log id := by
  rw [lastLease?, lastLease?, h]

theorem Fenced.start : Fenced [] .empty where
  keyed := List.nodup_nil
  leased_once := List.nodup_nil
  leased_le := by simp [leases]
  holder := by simp [RuntimeState.empty]
  finished_once := List.nodup_nil
  finished_terminal := by simp [finishes]

section

variable {log : LedgerLog} {s s' : RuntimeState}

/-- What was handed out stays below the row's revision. -/
theorem Fenced.leased_le_of (h : Fenced log s) (hev : Evolves s.workIntents s'.workIntents) :
    ∀ t ∈ leases log, ∃ r ∈ s'.workIntents, r.intentId = t.1 ∧ t.2 ≤ r.revision := by
  intro t ht
  obtain ⟨r, hr, hid, hle⟩ := h.leased_le t ht
  obtain ⟨r', hr', hpath⟩ := hev.kept hr
  have hlater := later_of_path hpath
  exact ⟨r', hr', hlater.intentId.trans hid, le_trans hle hlater.revision_le⟩

theorem Fenced.finished_terminal_of (h : Fenced log s)
    (hev : Evolves s.workIntents s'.workIntents) :
    ∀ id ∈ finishes log, ∃ r ∈ s'.workIntents, r.intentId = id ∧ r.state.terminal = true := by
  intro id hid
  obtain ⟨r, hr, hrid, hterm⟩ := h.finished_terminal id hid
  obtain ⟨r', hr', hpath⟩ := hev.kept hr
  have hlater := later_of_path hpath
  exact ⟨r', hr', hlater.intentId.trans hrid, by rw [(hlater.frozen hterm).1]; exact hterm⟩

theorem Fenced.holder_of_touch (h : Fenced log s)
    (hmoves : Moves Touch s.workIntents s'.workIntents) :
    ∀ r ∈ s'.workIntents, r.state = .leased → lastLease? log r.intentId = some r.revision := by
  intro r' hr' hs
  obtain ⟨r, hr, hstate, hid, hrev⟩ := hmoves.leased_origin hr' hs
  rw [← hid, ← hrev]
  exact h.holder r hr hstate

/-- A finished intent holds no lease. -/
theorem Fenced.not_finished (h : Fenced log s) {intentId : String} {revision : Int}
    (hholds : Holds s.workIntents intentId revision) : intentId ∉ finishes log := by
  intro hmem
  obtain ⟨r, hr, hid, -, hleased⟩ := hholds
  obtain ⟨r', hr', hid', hterm⟩ := h.finished_terminal intentId hmem
  obtain rfl := h.keyed.unique hr hr' (hid.trans hid'.symm)
  rw [hleased] at hterm
  cases hterm

/-- **One call keeps the ledger fenced.** -/
theorem Fenced.step (h : Fenced log s) {op : LedgerOp} {output : LedgerOutput}
    (ho : Outcome s (op, output) s') : Fenced (log ++ [(op, output)]) s' := by
  have hev := ho.evolves
  have hle := h.leased_le_of hev
  have hterm := h.finished_terminal_of hev
  cases ho with
  | refused op e =>
      have hleases : leases (log ++ [(op, .error e)]) = leases log := by
        simp [leases_append_singleton, leaseOf?]
      have hfinishes : finishes (log ++ [(op, .error e)]) = finishes log := by
        rw [finishes_append_singleton]
        cases op <;> simp [finishOf?]
      exact ⟨h.keyed, by rw [hleases]; exact h.leased_once, by rw [hleases]; exact hle,
        fun r hr hs => by rw [lastLease?_congr hleases]; exact h.holder r hr hs,
        by rw [hfinishes]; exact h.finished_once, by rw [hfinishes]; exact hterm⟩
  | moved op result _ htouch hlease hfinish _ =>
      have hleases : leases (log ++ [(op, .ok result)]) = leases log := by
        simp [leases_append_singleton, hlease]
      have hfinishes : finishes (log ++ [(op, .ok result)]) = finishes log := by
        simp [finishes_append_singleton, hfinish]
      exact ⟨hev.keyed h.keyed, by rw [hleases]; exact h.leased_once, by rw [hleases]; exact hle,
        fun r hr hs => by
          rw [lastLease?_congr hleases]; exact h.holder_of_touch htouch r hr hs,
        by rw [hfinishes]; exact h.finished_once, by rw [hfinishes]; exact hterm⟩
  | inserted op result r hdrafts hins _ hlease hfinish =>
      have hleases : leases (log ++ [(op, .ok result)]) = leases log := by
        simp [leases_append_singleton, hlease]
      have hfinishes : finishes (log ++ [(op, .ok result)]) = finishes log := by
        simp [finishes_append_singleton, hfinish]
      refine ⟨hev.keyed h.keyed, by rw [hleases]; exact h.leased_once, by rw [hleases]; exact hle,
        fun r' hr' hs => ?_, by rw [hfinishes]; exact h.finished_once,
        by rw [hfinishes]; exact hterm⟩
      rw [lastLease?_congr hleases]
      rcases List.mem_append.mp hr' with hr' | hr'
      · exact h.holder r' hr' hs
      · rw [List.mem_singleton.mp hr', hdrafts.queued] at hs
        cases hs
  | finished intentId revision state error now r _ htouch hholds hdone =>
      have hleases : leases (log ++ [(.finish intentId revision state error now,
          .ok (.row r))]) = leases log := by simp [leases_append_singleton, leaseOf?]
      have hfinishes : finishes (log ++ [(.finish intentId revision state error now,
          .ok (.row r))]) = finishes log ++ [intentId] := by
        simp [finishes_append_singleton, finishOf?]
      refine ⟨hev.keyed h.keyed, by rw [hleases]; exact h.leased_once,
        by rw [hleases]; exact hle, fun r hr hs => by
          rw [lastLease?_congr hleases]; exact h.holder_of_touch htouch r hr hs, ?_, ?_⟩
      · rw [hfinishes, List.nodup_append]
        refine ⟨h.finished_once, List.nodup_singleton _, fun id hid id' hid' heq => ?_⟩
        rw [List.mem_singleton.mp hid'] at heq
        exact h.not_finished hholds (heq ▸ hid)
      · intro id hid
        rw [hfinishes, List.mem_append, List.mem_singleton] at hid
        rcases hid with hid | rfl
        · exact hterm id hid
        · exact hdone
  | granted scope leaseOwner leaseMicros kind now later mid row owner expiresAt leasedAt
      _ hmid hrow hqueued hrows =>
      have hkeyed := (hmid.mono fun _ _ => .inl).keyed h.keyed
      have hself : RuntimeState.selects row row = true := by
        simp [RuntimeState.selects, hqueued]
      have honly : ∀ r ∈ mid, RuntimeState.selects row r = true → r = row := by
        intro r hr hsel
        simp only [RuntimeState.selects, decide_eq_true_eq] at hsel
        exact hkeyed.unique hr hrow hsel.1
      generalize hentry : ((LedgerOp.leaseNext scope leaseOwner leaseMicros kind now later,
        Except.ok (LedgerResult.leased (some (row.lease owner expiresAt leasedAt)))) :
          LedgerOp × LedgerOutput) = entry
      have hlease : leaseOf? entry = some (row.intentId, row.revision + 1) := by
        rw [← hentry]; rfl
      have hleases : leases (log ++ [entry]) = leases log ++ [(row.intentId, row.revision + 1)] := by
        rw [leases_append_singleton, hlease]
        rfl
      have hfinishes : finishes (log ++ [entry]) = finishes log := by
        simp [finishes_append_singleton, ← hentry, finishOf?]
      refine ⟨hev.keyed h.keyed, ?_, ?_, ?_, by rw [hfinishes]; exact h.finished_once,
        by rw [hfinishes]; exact hterm⟩
      · -- the revision handed out is above every one before it
        rw [hleases, List.nodup_append]
        refine ⟨h.leased_once, List.nodup_singleton _, fun t ht t' ht' heq => ?_⟩
        obtain rfl := List.mem_singleton.mp ht'
        obtain ⟨r, hr, hid, hrev⟩ := h.leased_le t ht
        obtain ⟨r₁, hr₁, hpath⟩ := hmid.kept hr
        have hlater := later_of_path (ReflTransGen.mono (fun _ _ => .inl) _ _ hpath)
        subst heq
        obtain rfl := hkeyed.unique hr₁ hrow (hlater.intentId.trans hid)
        have hup := hlater.revision_le
        have hnew : r₁.revision + 1 ≤ r.revision := hrev
        omega
      · intro t ht
        rw [hleases, List.mem_append, List.mem_singleton] at ht
        rcases ht with ht | rfl
        · exact hle t ht
        · rw [hrows]
          exact ⟨_, mem_updateWhere_of hrow hself, rfl, le_rfl⟩
      · intro r' hr' hs
        rw [hrows] at hr'
        obtain ⟨r, hr, rfl⟩ := mem_updateWhere.mp hr'
        rw [lastLease?_append_lease log hlease]
        by_cases hsel : RuntimeState.selects row r = true
        · rw [if_pos hsel] at hs ⊢
          obtain rfl := honly r hr hsel
          exact if_pos rfl
        · rw [if_neg hsel] at hs ⊢
          have hne : ¬ row.intentId = r.intentId := fun hid => by
            obtain rfl := hkeyed.unique hrow hr hid
            rw [hs] at hqueued
            cases hqueued
          rw [if_neg hne]
          have hheld : ∀ r ∈ mid, r.state = .leased → lastLease? log r.intentId = some r.revision :=
            @Fenced.holder_of_touch _ _ { s with workIntents := mid } h hmid
          exact hheld r hr hs

end

/-! ## The claim on runs -/

/-- Whatever point of a run is taken, every intent known there is still
known at its end, with its revision no lower, higher by at least one if
its state differs, and both unchanged if it was over. -/
def RowsAdvance (s s' : RuntimeState) : Prop :=
  ∀ r ∈ s.workIntents, ∃ r' ∈ s'.workIntents, r'.intentId = r.intentId
    ∧ r.revision ≤ r'.revision ∧ (r'.state ≠ r.state → r.revision + 1 ≤ r'.revision)
    ∧ (r.state.terminal = true → r'.state = r.state ∧ r'.revision = r.revision)

/-- The fencing guarantees of a log that ends in `s`. -/
structure LeaseFencing (log : LedgerLog) (s : RuntimeState) : Prop where
  unique_ids : (s.workIntents.map (·.intentId)).Nodup
  advance : ∀ pre post s₁, log = pre ++ post → LedgerRun pre s₁ → RowsAdvance s₁ s
  leased_once : (leases log).Nodup
  finished_once : (finishes log).Nodup
  current_token : ∀ pre op result post t, log = pre ++ (op, .ok result) :: post →
    op.token? = some t → lastLease? pre t.1 = some t.2
  stale_refused : ∀ pre op output post s₁ t, log = pre ++ (op, output) :: post →
    LedgerRun pre s₁ → op.token? = some t → lastLease? pre t.1 ≠ some t.2 →
    (∃ e, output = .error e) ∧ (ledgerStep s₁ op).2 = s₁

theorem LedgerRun.fenced {log : LedgerLog} {s : RuntimeState} (h : LedgerRun log s) :
    Fenced log s :=
  h.invariant .start fun _ s op _ _ ih => ih.step (ledgerStep_outcome s op)

theorem RowsAdvance.of_evolves {s s' : RuntimeState}
    (h : Evolves s.workIntents s'.workIntents) : RowsAdvance s s' := by
  intro r hr
  obtain ⟨r', hr', hpath⟩ := h.kept hr
  have hlater := later_of_path hpath
  exact ⟨r', hr', hlater.intentId, hlater.revision_le, hlater.revision_lt, hlater.frozen⟩

/-- A continuation moves the rows along `RowStep` only. -/
theorem evolves_of_leads {pre post : LedgerLog} {s s' : RuntimeState}
    (h : Leads ledgerStep (fun _ _ _ => True) pre s post s') :
    Evolves s.workIntents s'.workIntents := by
  induction h with
  | done => exact .refl _
  | next op _ _ ih => exact (ledgerStep_outcome _ op).evolves.trans ih

/-- A call that succeeds presents the token of the intent's last lease. -/
theorem Fenced.current_token {log : LedgerLog} {s s' : RuntimeState} (h : Fenced log s)
    {op : LedgerOp} {result : LedgerResult} (ho : Outcome s (op, .ok result) s')
    {t : String × Int} (ht : op.token? = some t) : lastLease? log t.1 = some t.2 := by
  have hholder : Holds s.workIntents t.1 t.2 → lastLease? log t.1 = some t.2 := by
    rintro ⟨r, hr, hid, hrev, hs⟩
    rw [← hid, ← hrev]
    exact h.holder r hr hs
  cases ho with
  | moved _ _ _ _ _ _ htoken => exact hholder (htoken t ht)
  | inserted _ _ _ _ _ htoken => rw [htoken] at ht; cases ht
  | finished _ _ _ _ _ _ _ _ hholds _ =>
      cases ht
      exact hholder hholds
  | granted => cases ht

theorem Outcome.unchanged {s s' : RuntimeState} {op : LedgerOp} {e : StoreError}
    (h : Outcome s (op, .error e) s') : s' = s := by
  cases h
  rfl

/-- The entry of a log, as the step that made it. -/
theorem LedgerRun.entry {pre post : LedgerLog} {op : LedgerOp} {output : LedgerOutput}
    {s : RuntimeState} (h : LedgerRun (pre ++ (op, output) :: post) s) :
    ∃ s₁, LedgerRun pre s₁ ∧ output = (ledgerStep s₁ op).1 := by
  obtain ⟨s₁, hpre, hpost⟩ := h.split
  cases hpost
  exact ⟨s₁, hpre, rfl⟩

/-- **Lease fencing**: in every interleaving of calls of any connections
and owners, revisions and ended intents only ever move one way, no lease
is handed out twice, no intent is finished twice, and a token that is not
the intent's last one is refused without effect. -/
theorem lease_fencing {log : LedgerLog} {s : RuntimeState} (h : LedgerRun log s) :
    LeaseFencing log s where
  unique_ids := h.fenced.keyed
  advance := fun pre post s₁ hlog hpre => by
    subst hlog
    obtain ⟨s₂, hpre', hpost⟩ := h.split
    obtain rfl := hpre.state_unique hpre'
    exact .of_evolves (evolves_of_leads hpost)
  leased_once := h.fenced.leased_once
  finished_once := h.fenced.finished_once
  current_token := fun pre op result post t hlog ht => by
    subst hlog
    obtain ⟨s₁, hpre, hout⟩ := h.entry
    have ho := ledgerStep_outcome s₁ op
    rw [← hout] at ho
    exact hpre.fenced.current_token ho ht
  stale_refused := fun pre op output post s₁ t hlog hpre ht hstale => by
    subst hlog
    obtain ⟨s₂, hpre', hout⟩ := h.entry
    obtain rfl := hpre.state_unique hpre'
    have ho := ledgerStep_outcome s₁ op
    rw [← hout] at ho
    cases output with
    | error e => exact ⟨⟨e, rfl⟩, ho.unchanged⟩
    | ok result => exact absurd (hpre.fenced.current_token ho ht) hstale

/-- A lease expires, the intent is handed out again, and its first holder
comes back late. -/
def lateFinish : List LedgerOp :=
  [.enqueue ⟨"s", "Bot"⟩ ⟨.message, "cli", 50, [], none, none, none⟩ none "a" 0,
    .leaseNext ⟨"s", "Bot"⟩ "first" 60000000 none 1000 1000,
    .leaseNext ⟨"s", "Bot"⟩ "second" 60000000 none 70000000 70000000,
    .finish "a" 2 .completed none 71000000,
    .finish "a" 4 .completed none 72000000]

theorem lease_fencing_lateFinish :
    LeaseFencing (exec ledgerStep .empty lateFinish).1 (exec ledgerStep .empty lateFinish).2
      ∧ leases (exec ledgerStep .empty lateFinish).1 = [("a", 2), ("a", 4)]
      ∧ finishes (exec ledgerStep .empty lateFinish).1 = ["a"] :=
  ⟨lease_fencing (.of_inputs lateFinish fun _ _ _ _ => trivial), by decide, by decide⟩

end MineBot
