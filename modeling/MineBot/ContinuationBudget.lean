import Mathlib
import MineBot.History
import MineBot.WorkIntents

/-!
# The continuation budget

`settle_continuation_approach` and `reserve_continuation_epoch`, over any
number of connections to one database: each call is one transaction, and
tasks and checkpoints may change in between. What the three tables
`continuation_approaches`, `continuation_settlements` and
`continuation_epoch_reservations` must agree on is followed through the
log of calls.
-/

namespace MineBot

open Table

/-! ## Sums in SQLite -/

/-- The double nearest to `n`, ties to even. -/
def roundDouble (n : Nat) : Nat :=
  let ulp := 2 ^ (n.log2 + 1 - 53)
  let low := n / ulp * ulp
  let rest := n % ulp
  if ulp < 2 * rest ∨ 2 * rest = ulp ∧ n / ulp % 2 = 1 then low + ulp else low

/-- `a + b` of two counts in a column: a sum past 64 bits becomes a
`REAL`, and a `REAL` that large is a whole number. -/
def sqlAdd (a b : Int) : Int :=
  if a + b < 2 ^ 63 then a + b else (roundDouble (roundDouble a.toNat + roundDouble b.toNat) : Nat)

theorem sqlAdd_of_lt {a b : Int} (h : a + b < 2 ^ 63) : sqlAdd a b = a + b := if_pos h

theorem sqlAdd_one_limit : sqlAdd (2 ^ 63 - 1) 1 = 2 ^ 63 := by decide +kernel

theorem sqlAdd_one_real : sqlAdd (2 ^ 63) 1 = 2 ^ 63 := by decide +kernel

/-- Counting one up stops at `2 ^ 63`. -/
theorem sqlAdd_one {a : Int} (h : a ≤ 2 ^ 63) :
    sqlAdd a 1 ≤ a + 1 ∧ sqlAdd a 1 ≤ 2 ^ 63 ∧ a ≤ sqlAdd a 1
      ∧ (sqlAdd a 1 < 2 ^ 63 → sqlAdd a 1 = a + 1) := by
  rcases lt_or_ge (a + 1) (2 ^ 63) with hlt | hge
  · rw [sqlAdd_of_lt hlt]
    omega
  · rcases (by omega : a = 2 ^ 63 - 1 ∨ a = 2 ^ 63) with rfl | rfl
    · rw [sqlAdd_one_limit]
      omega
    · rw [sqlAdd_one_real]
      omega

/-! ## The calls -/

/-- The row is the approach with this primary key. -/
def ApproachRow.is (scopeKey taskId approachKey : String) (a : ApproachRow) : Bool :=
  a.scopeKey = scopeKey ∧ a.taskId = taskId ∧ a.approachKey = approachKey

def ApproachRow.debit (consumed : Int) (a : ApproachRow) : ApproachRow :=
  { a with consumedEpochs := sqlAdd a.consumedEpochs consumed }

def SettlementRow.debit (s : SettlementRow) : SettlementRow :=
  { s with consumedEpochs := sqlAdd s.consumedEpochs 1 }

/-- What `settle_continuation_approach` returns. -/
structure ApproachState where
  budgetLimit : Int
  consumedEpochs : Int
  remainingEpochs : Int
deriving DecidableEq

namespace RuntimeState

variable (s : RuntimeState) (scope : RuntimeScope)

/-- `INSERT OR IGNORE INTO continuation_approaches`. -/
def insertApproach (row : ApproachRow) (approaches : List ApproachRow) : List ApproachRow :=
  if approaches.any (·.is row.scopeKey row.taskId row.approachKey) then approaches
  else approaches ++ [row]

/-- The `SELECT` of `settle_continuation_approach`, with the checks behind
it: the checkpoint's contract, if the checkpoint is the task's latest and
the contract has this approach key. -/
def settleable (checkpointId taskId approachKey : String) : Bool :=
  match s.checkpoints.find? fun c => c.checkpointId = checkpointId ∧ c.taskId = taskId,
      s.tasks.find? fun t => t.taskId = taskId ∧ t.scopeKey = scope.key with
  | some c, some t =>
      t.latestCheckpointId.getD "" = checkpointId
        && (match c.continuation with
          | some contract => contract.approachKey = approachKey
          | none => false)
  | _, _ => false

/-- `settle_continuation_approach`. -/
def settleContinuationApproach (checkpointId taskId approachKey : String)
    (budgetLimit consumedEpochs : Int) :
    Except StoreError (Option ApproachState × RuntimeState) :=
  let consumed := max 0 consumedEpochs
  if !s.settleable scope checkpointId taskId approachKey then .ok (none, s)
  else match requiredText approachKey 256 with
  | none => .error (.emptyText "approach_key")
  | some key =>
      if !fitsInt64 (max 1 budgetLimit) || !fitsInt64 consumed then .error .integerTooLarge
      else
        let approaches := insertApproach ⟨scope.key, taskId, key, max 1 budgetLimit, 0⟩ s.approaches
        let settled := s.settlements.any fun st => st.checkpointId = checkpointId
        let settlements := if settled then s.settlements
          else s.settlements ++ [⟨checkpointId, scope.key, taskId, approachKey, consumed⟩]
        let approaches := if settled then approaches
          else updateWhere (·.is scope.key taskId approachKey) (·.debit consumed) approaches
        match approaches.find? (·.is scope.key taskId approachKey) with
        | none => .error .assertion
        | some row => .ok (some ⟨row.budgetLimit, row.consumedEpochs,
              max 0 (row.budgetLimit - row.consumedEpochs)⟩,
            { s with settlements := settlements, approaches := approaches })

/-- The row that `reserve_continuation_epoch` selects: the checkpoint, its
task, its settlement and the approach that one belongs to. -/
def debitRow (checkpointId : String) :
    Option (CheckpointRow × TaskRow × SettlementRow × ApproachRow) := do
  let c ← s.checkpoints.find? fun c => c.checkpointId = checkpointId
  let t ← s.tasks.find? fun t => t.taskId = c.taskId ∧ t.scopeKey = scope.key
  let latestId ← t.latestCheckpointId
  let latest ← s.checkpoints.find? fun c => c.checkpointId = latestId
  let settlement ← s.settlements.find? fun st => st.checkpointId = checkpointId
  let approach ← s.approaches.find?
    (·.is settlement.scopeKey settlement.taskId settlement.approachKey)
  if c.disposition = .continue ∧ t.status = .running
      ∧ (latestId = c.checkpointId
        ∨ latest.disposition = .complete ∧ latest.revision = c.revision + 1)
  then some (c, t, settlement, approach) else none

/-- `reserve_continuation_epoch`. -/
def reserveContinuationEpoch (checkpointId epochId : String) :
    Except StoreError (Bool × RuntimeState) :=
  match requiredText epochId 256 with
  | none => .error (.emptyText "epoch_id")
  | some epoch =>
      match s.reservations.find? fun r => r.epochId = epoch with
      | some existing =>
          .ok (existing.scopeKey = scope.key ∧ existing.checkpointId = checkpointId, s)
      | none =>
          match s.debitRow scope checkpointId with
          | none => .ok (false, s)
          | some (c, t, settlement, approach) =>
              match c.continuation with
              | none => .ok (false, s)
              | some contract =>
                  if contract.boundedEpochBudget ≤ settlement.consumedEpochs
                      ∨ approach.budgetLimit ≤ approach.consumedEpochs
                  then .ok (false, s)
                  else .ok (true, { s with
                    reservations := s.reservations ++ [⟨epoch, scope.key, checkpointId⟩]
                    settlements := updateWhere (fun st => st.checkpointId = checkpointId)
                      (·.debit) s.settlements
                    approaches := updateWhere (·.is scope.key t.taskId contract.approachKey)
                      (·.debit 1) s.approaches })

end RuntimeState

/-! ## Runs -/

/-- A transaction of some connection. `environment` is everybody else's
change to tasks and checkpoints. -/
inductive BudgetOp where
  | settle (scope : RuntimeScope) (checkpointId taskId approachKey : String)
      (budgetLimit consumedEpochs : Int)
  | reserve (scope : RuntimeScope) (checkpointId epochId : String)
  | environment (tasks : List TaskRow) (checkpoints : List CheckpointRow)

inductive BudgetResult where
  | settled (state : Option ApproachState)
  | reserved (answer : Bool)
  | done
deriving DecidableEq

abbrev BudgetOutput := Except StoreError BudgetResult

def budgetStep (s : RuntimeState) : BudgetOp → BudgetOutput × RuntimeState
  | .settle scope checkpointId taskId approachKey budgetLimit consumedEpochs =>
      match s.settleContinuationApproach scope checkpointId taskId approachKey budgetLimit
          consumedEpochs with
      | .ok (res, s') => (.ok (.settled res), s')
      | .error e => (.error e, s)
  | .reserve scope checkpointId epochId =>
      match s.reserveContinuationEpoch scope checkpointId epochId with
      | .ok (answer, s') => (.ok (.reserved answer), s')
      | .error e => (.error e, s)
  | .environment tasks checkpoints =>
      (.ok .done, { s with tasks := tasks, checkpoints := checkpoints })

abbrev BudgetLog := List (BudgetOp × BudgetOutput)

/-- Checkpoints are written once and stay; a task keeps its scope. -/
structure Grows (s : RuntimeState) (tasks : List TaskRow) (checkpoints : List CheckpointRow) :
    Prop where
  checkpointIds : Keyed (·.checkpointId) checkpoints
  taskIds : Keyed (·.taskId) tasks
  checkpoints : ∀ c ∈ s.checkpoints, c ∈ checkpoints
  tasks : ∀ t ∈ s.tasks, ∃ t' ∈ tasks, t'.taskId = t.taskId ∧ t'.scopeKey = t.scopeKey

def BudgetOp.Allowed (s : RuntimeState) : BudgetOp → Prop
  | .environment tasks checkpoints => Grows s tasks checkpoints
  | _ => True

/-- Any interleaving of transactions, from an empty database. -/
abbrev BudgetRun : BudgetLog → RuntimeState → Prop :=
  Run budgetStep (fun _ s op => op.Allowed s) .empty

/-- The checkpoint a settle took effect for, with the epochs it put in. -/
def settledBy? : BudgetOp × BudgetOutput → Option (String × Int)
  | (.settle _ checkpointId _ _ _ consumedEpochs, .ok (.settled (some _))) =>
      some (checkpointId, max 0 consumedEpochs)
  | _ => none

/-- What the first settle of a checkpoint put in. -/
def firstSettle? (log : BudgetLog) (checkpointId : String) : Option Int :=
  Dict.get? (log.filterMap settledBy?) checkpointId

/-- An epoch id as it is stored. -/
def epochKey (epochId : String) : String := boundedText epochId 256

/-- The reservation an entry of the log granted, or granted again. -/
def reservedBy? : BudgetOp × BudgetOutput → Option ReservationRow
  | (.reserve scope checkpointId epochId, .ok (.reserved true)) =>
      some ⟨epochKey epochId, scope.key, checkpointId⟩
  | _ => none

/-- The distinct epochs reserved for a checkpoint. -/
def reservedEpochs (log : BudgetLog) (checkpointId : String) : List String :=
  (((log.filterMap reservedBy?).filter fun r => r.checkpointId = checkpointId).map
    (·.epochId)).dedup

/-- What a settlement adds to an approach. -/
def SettlementRow.share (scopeKey taskId approachKey : String) (st : SettlementRow) : Int :=
  if st.scopeKey = scopeKey ∧ st.taskId = taskId ∧ st.approachKey = approachKey
  then st.consumedEpochs else 0

/-- The epochs settled under an approach. -/
def settledTotal (scopeKey taskId approachKey : String) (settlements : List SettlementRow) :
    Int :=
  (settlements.map (·.share scopeKey taskId approachKey)).sum

/-! ## What one call does -/

section Calls

variable {s s' : RuntimeState} {scope : RuntimeScope} {checkpointId taskId approachKey : String}
variable {budgetLimit consumedEpochs : Int} {epochId : String}

/-- The checkpoint belongs to this task of the scope, under this key. -/
structure Owns (s : RuntimeState) (scopeKey taskId approachKey checkpointId : String) : Prop where
  checkpoint : ∃ c ∈ s.checkpoints, c.checkpointId = checkpointId ∧ c.taskId = taskId
    ∧ ∃ contract, c.continuation = some contract ∧ contract.approachKey = approachKey
  task : ∃ t ∈ s.tasks, t.taskId = taskId ∧ t.scopeKey = scopeKey

theorem owns_of_settleable (h : s.settleable scope checkpointId taskId approachKey = true) :
    Owns s scope.key taskId approachKey checkpointId := by
  unfold RuntimeState.settleable at h
  split at h
  · next c t hc ht =>
      rw [Bool.and_eq_true] at h
      have hc' := List.find?_some hc
      have ht' := List.find?_some ht
      simp only [decide_eq_true_eq] at hc' ht'
      refine ⟨⟨c, List.mem_of_find?_eq_some hc, hc'.1, hc'.2, ?_⟩,
        t, List.mem_of_find?_eq_some ht, ht'⟩
      have hkey := h.2
      split at hkey
      · next contract hcontract => exact ⟨contract, hcontract, by simpa using hkey⟩
      · cases hkey
  · cases h

/-- A settle has no effect, finds the checkpoint settled, or books it. -/
inductive Settles (s : RuntimeState) (scope : RuntimeScope)
    (checkpointId taskId approachKey : String) (budgetLimit consumed : Int) :
    Option ApproachState → RuntimeState → Prop where
  | refused : Settles s scope checkpointId taskId approachKey budgetLimit consumed none s
  | books (key : String) (row : ApproachRow) (settled : Bool) (approaches : List ApproachRow)
      (settlements : List SettlementRow) :
      Owns s scope.key taskId approachKey checkpointId →
      requiredText approachKey 256 = some key → fitsInt64 (max 1 budgetLimit) = true →
      fitsInt64 consumed = true →
      settled = (s.settlements.any fun st => st.checkpointId = checkpointId) →
      approaches = (if settled
        then RuntimeState.insertApproach ⟨scope.key, taskId, key, max 1 budgetLimit, 0⟩ s.approaches
        else updateWhere (·.is scope.key taskId approachKey) (·.debit consumed)
          (RuntimeState.insertApproach ⟨scope.key, taskId, key, max 1 budgetLimit, 0⟩
            s.approaches)) →
      settlements = (if settled then s.settlements
        else s.settlements ++ [⟨checkpointId, scope.key, taskId, approachKey, consumed⟩]) →
      approaches.find? (·.is scope.key taskId approachKey) = some row →
      Settles s scope checkpointId taskId approachKey budgetLimit consumed
        (some ⟨row.budgetLimit, row.consumedEpochs,
          max 0 (row.budgetLimit - row.consumedEpochs)⟩)
        { s with settlements := settlements, approaches := approaches }

theorem settle_spec {res : Option ApproachState}
    (h : s.settleContinuationApproach scope checkpointId taskId approachKey budgetLimit
      consumedEpochs = .ok (res, s')) :
    Settles s scope checkpointId taskId approachKey budgetLimit (max 0 consumedEpochs) res s' := by
  unfold RuntimeState.settleContinuationApproach at h
  extract_lets consumed at h
  split at h
  · cases h
    exact .refused
  · next hsettleable =>
      split at h
      · cases h
      · next key hkey =>
          split at h
          · cases h
          · next hfits =>
              dsimp only at h
              split at h
              · cases h
              · next row hrow =>
                  cases h
                  simp only [Bool.or_eq_true, Bool.not_eq_true', not_or,
                    Bool.not_eq_false] at hfits
                  exact .books key row _ _ _
                    (owns_of_settleable (by simpa using hsettleable)) hkey hfits.1 hfits.2 rfl rfl
                    rfl hrow

/-- A reservation finds the epoch reserved, is denied, or debits. -/
inductive Reserves (s : RuntimeState) (scope : RuntimeScope) (checkpointId epoch : String) :
    Bool → RuntimeState → Prop where
  | found (r : ReservationRow) : r ∈ s.reservations → r.epochId = epoch →
      Reserves s scope checkpointId epoch
        (r.scopeKey = scope.key ∧ r.checkpointId = checkpointId) s
  | denied : (∀ r ∈ s.reservations, r.epochId ≠ epoch) →
      Reserves s scope checkpointId epoch false s
  | debits (c : CheckpointRow) (t : TaskRow) (contract : ContinuationContract)
      (settlement : SettlementRow) (approach : ApproachRow) :
      (∀ r ∈ s.reservations, r.epochId ≠ epoch) →
      c ∈ s.checkpoints → c.checkpointId = checkpointId → c.continuation = some contract →
      t ∈ s.tasks → t.taskId = c.taskId → t.scopeKey = scope.key →
      settlement ∈ s.settlements → settlement.checkpointId = checkpointId →
      approach ∈ s.approaches → approach.is settlement.scopeKey settlement.taskId
        settlement.approachKey = true →
      settlement.consumedEpochs < contract.boundedEpochBudget →
      approach.consumedEpochs < approach.budgetLimit →
      Reserves s scope checkpointId epoch true { s with
        reservations := s.reservations ++ [⟨epoch, scope.key, checkpointId⟩]
        settlements := updateWhere (fun st => st.checkpointId = checkpointId) (·.debit)
          s.settlements
        approaches := updateWhere (·.is scope.key t.taskId contract.approachKey) (·.debit 1)
          s.approaches }

theorem reserve_spec_budget {answer : Bool}
    (h : s.reserveContinuationEpoch scope checkpointId epochId = .ok (answer, s')) :
    epochKey epochId ≠ "" ∧ Reserves s scope checkpointId (epochKey epochId) answer s' := by
  unfold RuntimeState.reserveContinuationEpoch at h
  split at h
  · cases h
  · next epoch hepoch =>
      obtain ⟨hkey, hne⟩ := requiredText_eq_some hepoch
      have hkey : epochKey epochId = epoch := hkey.symm
      refine ⟨hkey ▸ hne, hkey ▸ ?_⟩
      split at h
      · next existing hexisting =>
          cases h
          exact .found existing (List.mem_of_find?_eq_some hexisting)
            (by simpa using List.find?_some hexisting)
      · next hnone =>
          have hnew : ∀ r ∈ s.reservations, r.epochId ≠ epoch := fun r hr => by
            simpa using List.find?_eq_none.mp hnone r hr
          split at h
          · cases h
            exact .denied hnew
          · next c t settlement approach hrow =>
              split at h
              · cases h
                exact .denied hnew
              · next contract hcontract =>
                  split at h
                  · cases h
                    exact .denied hnew
                  · next hbudget =>
                      cases h
                      simp only [RuntimeState.debitRow, Option.bind_eq_bind,
                        Option.bind_eq_some_iff] at hrow
                      obtain ⟨c', hc, t', ht, latestId, -, latest, -, st, hst, a, ha, hrow⟩ := hrow
                      split at hrow
                      · simp only [Option.some.injEq, Prod.mk.injEq] at hrow
                        obtain ⟨rfl, rfl, rfl, rfl⟩ := hrow
                        have hc' := List.find?_some hc
                        have ht' := List.find?_some ht
                        have hst' := List.find?_some hst
                        simp only [decide_eq_true_eq] at hc' ht' hst'
                        simp only [not_or, not_le] at hbudget
                        exact .debits c' t' contract st a hnew (List.mem_of_find?_eq_some hc) hc'
                          hcontract (List.mem_of_find?_eq_some ht) ht'.1 ht'.2
                          (List.mem_of_find?_eq_some hst) hst' (List.mem_of_find?_eq_some ha)
                          (List.find?_some ha) hbudget.1 hbudget.2
                      · cases hrow

end Calls

/-! ## The books -/

/-- The primary key of an approach. -/
def ApproachRow.key (a : ApproachRow) : String × String × String :=
  (a.scopeKey, a.taskId, a.approachKey)

theorem ApproachRow.is_iff {scopeKey taskId approachKey : String} {a : ApproachRow} :
    a.is scopeKey taskId approachKey = true ↔ a.key = (scopeKey, taskId, approachKey) := by
  simp [ApproachRow.is, ApproachRow.key]

/-- What the tables say about one settled checkpoint. -/
structure SettledRow (log : BudgetLog) (s : RuntimeState) (st : SettlementRow) : Prop where
  owns : Owns s st.scopeKey st.taskId st.approachKey st.checkpointId
  approach : ∃ a ∈ s.approaches, a.key = (st.scopeKey, st.taskId, st.approachKey)
  bounds : 0 ≤ st.consumedEpochs ∧ st.consumedEpochs ≤ 2 ^ 63
  exact_ : ∃ first, firstSettle? log st.checkpointId = some first ∧ 0 ≤ first
    ∧ (first + s.reservations.countP (fun r => r.checkpointId = st.checkpointId) < 2 ^ 63 →
      st.consumedEpochs
        = first + s.reservations.countP fun r => r.checkpointId = st.checkpointId)

/-- What the tables say about one approach. -/
structure ApproachTotal (s : RuntimeState) (a : ApproachRow) : Prop where
  normal : requiredText a.approachKey 256 = some a.approachKey
  limit : a.budgetLimit < 2 ^ 63
  total : settledTotal a.scopeKey a.taskId a.approachKey s.settlements < 2 ^ 63 →
    a.consumedEpochs = settledTotal a.scopeKey a.taskId a.approachKey s.settlements

/-- The three tables agree with the log and with each other. -/
structure Booked (log : BudgetLog) (s : RuntimeState) : Prop where
  checkpointIds : Keyed (·.checkpointId) s.checkpoints
  taskIds : Keyed (·.taskId) s.tasks
  settlementIds : Keyed (·.checkpointId) s.settlements
  approachKeys : Keyed (·.key) s.approaches
  epochIds : Keyed (·.epochId) s.reservations
  settled : ∀ st ∈ s.settlements, SettledRow log s st
  totals : ∀ a ∈ s.approaches, ApproachTotal s a
  firsts : ∀ checkpointId first, firstSettle? log checkpointId = some first →
    ∃ st ∈ s.settlements, st.checkpointId = checkpointId
  reserved : ∀ r, r ∈ s.reservations ↔ r ∈ log.filterMap reservedBy?
  debited : ∀ r ∈ s.reservations, r.epochId ≠ ""
    ∧ ∃ st ∈ s.settlements, st.checkpointId = r.checkpointId

section Books

variable {log : BudgetLog} {s : RuntimeState} {scope : RuntimeScope}
variable {checkpointId taskId approachKey : String}

theorem get?_append_singleton (d : Dict String Int) (k l : String) (v : Int) :
    Dict.get? (d ++ [(k, v)]) l = (Dict.get? d l).or (if k = l then some v else none) := by
  induction d with
  | nil => rfl
  | cons e d ih =>
      obtain ⟨m, w⟩ := e
      rw [List.cons_append, Dict.get?_cons, Dict.get?_cons, ih]
      split <;> rfl

theorem firstSettle?_append {e : BudgetOp × BudgetOutput} (c : String) :
    firstSettle? (log ++ [e]) c = (firstSettle? log c).or
      (match settledBy? e with
        | some (k, v) => if k = c then some v else none
        | none => none) := by
  unfold firstSettle?
  rw [List.filterMap_append]
  cases h : settledBy? e with
  | none => simp [h]
  | some kv =>
      obtain ⟨k, v⟩ := kv
      simp only [List.filterMap_cons, h, List.filterMap_nil, get?_append_singleton]

theorem mem_reservedBy_append {e : BudgetOp × BudgetOutput} (r : ReservationRow) :
    r ∈ (log ++ [e]).filterMap reservedBy?
      ↔ r ∈ log.filterMap reservedBy? ∨ reservedBy? e = some r := by
  rw [List.filterMap_append, List.mem_append]
  cases h : reservedBy? e <;> simp [h, eq_comm]

/-- A call that changes no row and says nothing new. -/
theorem Booked.same (h : Booked log s) {e : BudgetOp × BudgetOutput}
    (hfirst : ∀ c v, settledBy? e = some (c, v) → ∃ first, firstSettle? log c = some first)
    (hreserved : ∀ r, reservedBy? e = some r → r ∈ s.reservations) :
    Booked (log ++ [e]) s := by
  have hsame : ∀ c, firstSettle? (log ++ [e]) c = firstSettle? log c := by
    intro c
    rw [firstSettle?_append]
    cases he : settledBy? e with
    | none => simp
    | some kv =>
        dsimp only
        split
        · next heq =>
            obtain ⟨first, hfirst⟩ := hfirst kv.1 kv.2 he
            rw [← heq, hfirst]
            rfl
        · simp
  refine { h with settled := fun st hst => ?_, firsts := fun c first hc => ?_, reserved := fun r => ?_ }
  · exact { h.settled st hst with exact_ := by rw [hsame]; exact (h.settled st hst).exact_ }
  · exact h.firsts c first (hsame c ▸ hc)
  · rw [mem_reservedBy_append, h.reserved]
    constructor
    · exact .inl
    · rintro (hr | hr)
      · exact hr
      · exact (h.reserved r).mp (hreserved r hr)

theorem Owns.grows {tasks : List TaskRow} {checkpoints : List CheckpointRow} {scopeKey : String}
    (h : Owns s scopeKey taskId approachKey checkpointId) (hgrows : Grows s tasks checkpoints) :
    Owns { s with tasks := tasks, checkpoints := checkpoints } scopeKey taskId approachKey
      checkpointId := by
  obtain ⟨⟨c, hc, hspec⟩, t, ht, htask, hscope⟩ := h
  obtain ⟨t', ht', htask', hscope'⟩ := hgrows.tasks t ht
  exact ⟨⟨c, hgrows.checkpoints c hc, hspec⟩, t', ht', htask'.trans htask, hscope'.trans hscope⟩

theorem Booked.environment (h : Booked log s) {tasks : List TaskRow}
    {checkpoints : List CheckpointRow} (hgrows : Grows s tasks checkpoints) :
    Booked (log ++ [(.environment tasks checkpoints, .ok .done)])
      { s with tasks := tasks, checkpoints := checkpoints } := by
  have hbooked : Booked log { s with tasks := tasks, checkpoints := checkpoints } :=
    { h with
      checkpointIds := hgrows.checkpointIds
      taskIds := hgrows.taskIds
      settled := fun st hst =>
        { h.settled st hst with owns := (h.settled st hst).owns.grows hgrows }
      totals := fun a ha => { h.totals a ha with total := (h.totals a ha).total } }
  exact hbooked.same nofun nofun

/-- The approach an insert leaves in place, and its account. -/
theorem Booked.insertApproach (h : Booked log s) {key : String} {limit : Int}
    (hlimit : fitsInt64 limit = true) (hkey : requiredText approachKey 256 = some key)
    (hfound : ∃ a ∈ RuntimeState.insertApproach ⟨scope.key, taskId, key, limit, 0⟩ s.approaches,
      a.key = (scope.key, taskId, approachKey)) :
    key = approachKey
      ∧ Keyed (·.key)
        (RuntimeState.insertApproach ⟨scope.key, taskId, key, limit, 0⟩ s.approaches)
      ∧ ∀ a ∈ RuntimeState.insertApproach ⟨scope.key, taskId, key, limit, 0⟩ s.approaches,
        ApproachTotal s a := by
  have hnormal : key = approachKey := by
    obtain ⟨a, ha, hak⟩ := hfound
    have hrow : a ∈ s.approaches ∨ a = ⟨scope.key, taskId, key, limit, 0⟩ := by
      unfold RuntimeState.insertApproach at ha
      split at ha
      · exact .inl ha
      · simpa using ha
    rcases hrow with ha | rfl
    · have hnormal := (h.totals a ha).normal
      simp only [ApproachRow.key, Prod.mk.injEq] at hak
      rw [hak.2.2, hkey] at hnormal
      exact Option.some.inj hnormal
    · simp only [ApproachRow.key, Prod.mk.injEq] at hak
      exact hak.2.2
  subst hnormal
  refine ⟨rfl, ?_⟩
  unfold RuntimeState.insertApproach
  split
  · exact ⟨h.approachKeys, h.totals⟩
  · next hany =>
      have hother : ∀ a ∈ s.approaches, a.key ≠ (scope.key, taskId, key) := fun a ha heq =>
        hany (List.any_eq_true.mpr ⟨a, ha, ApproachRow.is_iff.mpr heq⟩)
      refine ⟨h.approachKeys.append_singleton hother, fun a ha => ?_⟩
      rcases List.mem_append.mp ha with ha | ha
      · exact h.totals a ha
      · obtain rfl := List.mem_singleton.mp ha
        refine ⟨hkey, ?_, fun _ => ?_⟩
        · simp only [fitsInt64, Bool.and_eq_true, decide_eq_true_eq] at hlimit
          exact hlimit.2
        · -- no settlement of the approach can be there before it
          have hzero : ∀ st ∈ s.settlements, st.share scope.key taskId key = 0 := by
            intro st hst
            obtain ⟨a, ha, hak⟩ := (h.settled st hst).approach
            refine if_neg fun hst' => hother a ha ?_
            rw [hak, hst'.1, hst'.2.1, hst'.2.2]
          rw [settledTotal, List.map_congr_left hzero]
          simp

theorem find?_isSome_of_updateWhere {k : String × String × String} {consumed : Int}
    {approaches : List ApproachRow} {row : ApproachRow} {p : ApproachRow → Bool}
    (h : (updateWhere p (·.debit consumed) approaches).find? (·.is k.1 k.2.1 k.2.2) = some row) :
    ∃ a ∈ approaches, a.key = k := by
  obtain ⟨a, ha, rfl⟩ := mem_updateWhere.mp (List.mem_of_find?_eq_some h)
  have hsame : (if p a then a.debit consumed else a).key = a.key := by split <;> rfl
  exact ⟨a, ha, hsame.symm.trans (ApproachRow.is_iff.mp (List.find?_some h))⟩

/-- Debiting some approaches keeps every key. -/
theorem keyed_debit {approaches : List ApproachRow} (h : Keyed (·.key) approaches)
    (p : ApproachRow → Bool) (consumed : Int) :
    Keyed (·.key) (updateWhere p (·.debit consumed) approaches) := by
  have hkeys : (updateWhere p (·.debit consumed) approaches).map (·.key)
      = approaches.map (·.key) := map_key_updateWhere fun _ => rfl
  rw [Keyed, hkeys]
  exact h

theorem exists_debit {approaches : List ApproachRow} {k : String × String × String}
    (h : ∃ a ∈ approaches, a.key = k) (p : ApproachRow → Bool) (consumed : Int) :
    ∃ a ∈ updateWhere p (·.debit consumed) approaches, a.key = k := by
  obtain ⟨a, ha, rfl⟩ := h
  exact ⟨_, List.mem_map_of_mem ha, by dsimp only; split <;> rfl⟩

end Books

section Steps

variable {log : BudgetLog} {s s' : RuntimeState} {scope : RuntimeScope}
variable {checkpointId taskId approachKey epoch : String}

theorem mem_insertApproach {row a : ApproachRow} {approaches : List ApproachRow}
    (h : a ∈ approaches) : a ∈ RuntimeState.insertApproach row approaches := by
  unfold RuntimeState.insertApproach
  split
  · exact h
  · exact List.mem_append_left _ h

/-- A settle of a checkpoint that is settled changes nothing. -/
theorem Booked.settles_again (h : Booked log s) {budgetLimit consumed : Int}
    {res : Option ApproachState}
    (hsettles : Settles s scope checkpointId taskId approachKey budgetLimit consumed res s')
    (hdone : ∃ st ∈ s.settlements, st.checkpointId = checkpointId) : s' = s := by
  cases hsettles with
  | refused => rfl
  | books key row settled approaches settlements howns hkey hlimit hfits hsettled happroaches
      hsettlements hrow =>
      have hany : settled = true := by
        rw [hsettled, List.any_eq_true]
        obtain ⟨st, hst, hid⟩ := hdone
        exact ⟨st, hst, by simpa using hid⟩
      rw [hany] at happroaches hsettlements
      simp only [if_true] at happroaches hsettlements
      rw [happroaches] at hrow ⊢
      obtain ⟨rfl, -, -⟩ := h.insertApproach hlimit hkey
        ⟨row, List.mem_of_find?_eq_some hrow, ApproachRow.is_iff.mp (List.find?_some hrow)⟩
      -- the approach of the settlement is the one that would be inserted
      have hthere : s.approaches.any (·.is scope.key taskId key) = true := by
        obtain ⟨st, hst, hid⟩ := hdone
        have hrow' := h.settled st hst
        obtain ⟨a, ha, hak⟩ := hrow'.approach
        obtain ⟨⟨c, hc, hcid, hctask, contract, hcontract, hckey⟩, t, ht, httask, htscope⟩ := howns
        obtain ⟨⟨c', hc', hcid', hctask', contract', hcontract', hckey'⟩, t', ht', httask',
          htscope'⟩ := hrow'.owns
        obtain rfl := h.checkpointIds.unique hc hc' (hcid.trans (hid.symm.trans hcid'.symm))
        obtain rfl := h.taskIds.unique ht ht'
          (httask.trans (hctask.symm.trans (hctask'.trans httask'.symm)))
        obtain rfl := Option.some.inj (hcontract.symm.trans hcontract')
        refine List.any_eq_true.mpr ⟨a, ha, ApproachRow.is_iff.mpr ?_⟩
        rw [hak, ← htscope', ← httask', ← hckey', htscope, httask, hckey]
      rw [hsettlements, RuntimeState.insertApproach, if_pos hthere]

theorem Booked.settles_new (h : Booked log s) {e : BudgetOp × BudgetOutput}
    {budgetLimit consumed : Int} {state : ApproachState} (hconsumed : 0 ≤ consumed)
    (hsettles : Settles s scope checkpointId taskId approachKey budgetLimit consumed
      (some state) s')
    (hnew : ∀ st ∈ s.settlements, st.checkpointId ≠ checkpointId)
    (hsettledBy : settledBy? e = some (checkpointId, consumed))
    (hreservedBy : reservedBy? e = none) : Booked (log ++ [e]) s' := by
  cases hsettles with
  | books key row settled approaches settlements howns hkey hlimit hfits hsettled happroaches
      hsettlements hrow =>
      have hany : settled = false := by
        rw [hsettled, List.any_eq_false]
        exact fun st hst => by simpa using hnew st hst
      rw [hany] at happroaches hsettlements
      simp only [Bool.false_eq_true, if_false] at happroaches hsettlements
      rw [happroaches] at hrow ⊢
      obtain ⟨rfl, hkeyed, htotals⟩ := h.insertApproach hlimit hkey
        (find?_isSome_of_updateWhere (k := (scope.key, taskId, approachKey)) hrow)
      have hmade := find?_isSome_of_updateWhere (k := (scope.key, taskId, key)) hrow
      simp only [fitsInt64, Bool.and_eq_true, decide_eq_true_eq] at hfits
      have hfirst : ∀ c, firstSettle? (log ++ [e]) c
          = (firstSettle? log c).or (if checkpointId = c then some consumed else none) := by
        intro c
        rw [firstSettle?_append, hsettledBy]
      have hnone : firstSettle? log checkpointId = none := by
        cases hsome : firstSettle? log checkpointId with
        | none => rfl
        | some first =>
            obtain ⟨st, hst, hid⟩ := h.firsts _ _ hsome
            exact absurd hid (hnew st hst)
      have hcount : s.reservations.countP (fun r => r.checkpointId = checkpointId) = 0 := by
        refine List.countP_eq_zero.mpr fun r hr hid => ?_
        obtain ⟨-, st, hst, hst'⟩ := h.debited r hr
        exact hnew st hst (hst'.trans (of_decide_eq_true hid))
      rw [hsettlements]
      refine ⟨h.checkpointIds, h.taskIds, h.settlementIds.append_singleton hnew,
        keyed_debit hkeyed _ _, h.epochIds, ?_, ?_, ?_, ?_, ?_⟩
      · intro st hst
        rcases List.mem_append.mp hst with hst | hst
        · have hrow := h.settled st hst
          obtain ⟨a, ha, hak⟩ := hrow.approach
          refine ⟨⟨hrow.owns.checkpoint, hrow.owns.task⟩,
            exists_debit ⟨a, mem_insertApproach ha, hak⟩ _ _, hrow.bounds, ?_⟩
          obtain ⟨first, hfirst', hexact⟩ := hrow.exact_
          exact ⟨first, by rw [hfirst, hfirst']; rfl, hexact⟩
        · obtain rfl := List.mem_singleton.mp hst
          refine ⟨⟨howns.checkpoint, howns.task⟩, exists_debit hmade _ _, ⟨hconsumed, by dsimp only; omega⟩, consumed, ?_,
            hconsumed, fun _ => ?_⟩
          · rw [hfirst, hnone, if_pos rfl]
            rfl
          · dsimp only
            rw [hcount]
            simp
      · intro a' ha'
        obtain ⟨a, ha, rfl⟩ := mem_updateWhere.mp ha'
        have hacc := htotals a ha
        have htotal : settledTotal a.scopeKey a.taskId a.approachKey
            (s.settlements ++ [⟨checkpointId, scope.key, taskId, key, consumed⟩])
            = settledTotal a.scopeKey a.taskId a.approachKey s.settlements
              + if a.is scope.key taskId key then consumed else 0 := by
          have hshare : SettlementRow.share a.scopeKey a.taskId a.approachKey
              ⟨checkpointId, scope.key, taskId, key, consumed⟩
              = if a.is scope.key taskId key then consumed else 0 := by
            simp only [SettlementRow.share, ApproachRow.is, decide_eq_true_eq]
            by_cases hsame : a.scopeKey = scope.key ∧ a.taskId = taskId ∧ a.approachKey = key
            · rw [if_pos hsame, if_pos ⟨hsame.1.symm, hsame.2.1.symm, hsame.2.2.symm⟩]
            · rw [if_neg hsame, if_neg fun h => hsame ⟨h.1.symm, h.2.1.symm, h.2.2.symm⟩]
          simp only [settledTotal, List.map_append, List.map_singleton, List.sum_append,
            List.sum_singleton, hshare]
        split
        · next hp =>
            refine ⟨hacc.normal, hacc.limit, fun hlt => ?_⟩
            rw [if_pos hp] at htotal
            have hlt' : settledTotal a.scopeKey a.taskId a.approachKey s.settlements + consumed
                < 2 ^ 63 := htotal ▸ hlt
            change sqlAdd a.consumedEpochs consumed = settledTotal a.scopeKey a.taskId
              a.approachKey _
            rw [htotal, hacc.total (by omega), sqlAdd_of_lt hlt']
        · next hp =>
            refine ⟨hacc.normal, hacc.limit, fun hlt => ?_⟩
            rw [if_neg hp, add_zero] at htotal
            dsimp only at hlt ⊢
            rw [htotal] at hlt ⊢
            exact hacc.total hlt
      · intro c first hc
        rw [hfirst] at hc
        by_cases hsame : checkpointId = c
        · exact ⟨_, List.mem_append_right _ (List.mem_singleton.mpr rfl), hsame⟩
        · rw [if_neg hsame, Option.or_none] at hc
          obtain ⟨st, hst, hid⟩ := h.firsts c first hc
          exact ⟨st, List.mem_append_left _ hst, hid⟩
      · intro r
        rw [mem_reservedBy_append, hreservedBy]
        simpa using h.reserved r
      · intro r hr
        obtain ⟨hne, st, hst, hid⟩ := h.debited r hr
        exact ⟨hne, st, List.mem_append_left _ hst, hid⟩

/-- A new reservation adds one to its settlement and to that one's
approach. -/
theorem Booked.debits (h : Booked log s) {e : BudgetOp × BudgetOutput} {c : CheckpointRow}
    {t : TaskRow} {contract : ContinuationContract} {settlement : SettlementRow}
    (hnamed : epoch ≠ "") (hfresh : ∀ r ∈ s.reservations, r.epochId ≠ epoch)
    (hc : c ∈ s.checkpoints) (hcid : c.checkpointId = checkpointId)
    (hcontract : c.continuation = some contract) (ht : t ∈ s.tasks) (httask : t.taskId = c.taskId)
    (htscope : t.scopeKey = scope.key) (hst : settlement ∈ s.settlements)
    (hstid : settlement.checkpointId = checkpointId) (hsettledBy : settledBy? e = none)
    (hreservedBy : reservedBy? e = some ⟨epoch, scope.key, checkpointId⟩) :
    (scope.key, t.taskId, contract.approachKey)
        = (settlement.scopeKey, settlement.taskId, settlement.approachKey)
      ∧ Booked (log ++ [e]) { s with
        reservations := s.reservations ++ [⟨epoch, scope.key, checkpointId⟩]
        settlements := updateWhere (fun st => st.checkpointId = checkpointId) (·.debit)
          s.settlements
        approaches := updateWhere (·.is scope.key t.taskId contract.approachKey) (·.debit 1)
          s.approaches } := by
  -- the approach that is debited is the settlement's
  have hkey : (scope.key, t.taskId, contract.approachKey)
      = (settlement.scopeKey, settlement.taskId, settlement.approachKey) := by
    obtain ⟨⟨c', hc', hcid', hctask', contract', hcontract', hckey'⟩, t', ht', httask',
      htscope'⟩ := (h.settled settlement hst).owns
    obtain rfl := h.checkpointIds.unique hc hc' (hcid.trans (hstid.symm.trans hcid'.symm))
    obtain rfl := h.taskIds.unique ht ht' (httask.trans (hctask'.trans httask'.symm))
    obtain rfl := Option.some.inj (hcontract.symm.trans hcontract')
    rw [← htscope', ← httask', ← hckey', htscope]
  have hbounds := sqlAdd_one (h.settled settlement hst).bounds.2
  have hnonneg := (h.settled settlement hst).bounds.1
  have hfirst : ∀ c, firstSettle? (log ++ [e]) c = firstSettle? log c := by
    intro c
    rw [firstSettle?_append, hsettledBy, Option.or_none]
  have hsame : ∀ st ∈ s.settlements, st.checkpointId = checkpointId → st = settlement :=
    fun st hst' hid => h.settlementIds.unique hst' hst (hid.trans hstid.symm)
  have hupdated : ∀ (P : SettlementRow → Prop), (∀ st ∈ s.settlements,
      st.checkpointId ≠ checkpointId → P st) → P settlement.debit →
      ∀ st ∈ updateWhere (fun st => st.checkpointId = checkpointId) SettlementRow.debit
        s.settlements, P st := by
    intro P hother hthis st' hst'
    obtain ⟨st, hmem, rfl⟩ := mem_updateWhere.mp hst'
    split
    · next hid => exact hsame st hmem (of_decide_eq_true hid) ▸ hthis
    · next hid => exact hother st hmem (by simpa using hid)
  refine ⟨hkey, h.checkpointIds, h.taskIds, ?_, keyed_debit h.approachKeys _ _,
    h.epochIds.append_singleton hfresh, ?_, ?_, ?_, ?_, ?_⟩
  · have hids : (updateWhere (fun st => st.checkpointId = checkpointId) SettlementRow.debit
        s.settlements).map (·.checkpointId) = s.settlements.map (·.checkpointId) :=
      map_key_updateWhere fun _ => rfl
    rw [Keyed]
    dsimp only
    rw [hids]
    exact h.settlementIds
  · refine hupdated _ (fun st hst' hid => ?_) ?_
    · have hrow := h.settled st hst'
      refine ⟨⟨hrow.owns.checkpoint, hrow.owns.task⟩, exists_debit hrow.approach _ _, hrow.bounds,
        ?_⟩
      rw [hfirst, List.countP_append]
      have hzero : List.countP (fun r : ReservationRow => r.checkpointId = st.checkpointId)
          [⟨epoch, scope.key, checkpointId⟩] = 0 := by simp [Ne.symm hid]
      rw [hzero, Nat.add_zero]
      exact hrow.exact_
    · have hrow := h.settled settlement hst
      obtain ⟨first, hfirst', hpos, hexact⟩ := hrow.exact_
      refine ⟨⟨hrow.owns.checkpoint, hrow.owns.task⟩, exists_debit hrow.approach _ _, ?_, first,
        ?_, hpos, ?_⟩
      · exact ⟨hnonneg.trans hbounds.2.2.1, hbounds.2.1⟩
      · rw [hfirst]
        exact hfirst'
      · intro hlt
        have hone : List.countP (fun r : ReservationRow =>
            r.checkpointId = settlement.debit.checkpointId)
            [⟨epoch, scope.key, checkpointId⟩] = 1 := by simp [SettlementRow.debit, hstid]
        rw [List.countP_append, hone] at hlt ⊢
        change first + ((s.reservations.countP fun r => r.checkpointId = settlement.checkpointId)
          + 1 : Nat) < 2 ^ 63 at hlt
        change sqlAdd settlement.consumedEpochs 1 = first + ((s.reservations.countP fun r =>
          r.checkpointId = settlement.checkpointId) + 1 : Nat)
        rw [hexact (by omega), sqlAdd_of_lt (by omega)]
        omega
  · intro a' ha'
    obtain ⟨a, ha, rfl⟩ := mem_updateWhere.mp ha'
    have hacc := h.totals a ha
    have htotal : settledTotal a.scopeKey a.taskId a.approachKey
        (updateWhere (fun st => st.checkpointId = checkpointId) SettlementRow.debit s.settlements)
        = settledTotal a.scopeKey a.taskId a.approachKey s.settlements
          - settlement.share a.scopeKey a.taskId a.approachKey
          + settlement.debit.share a.scopeKey a.taskId a.approachKey :=
      h.settlementIds.sum_updateWhere hst (fun st hid => (of_decide_eq_true hid).trans hstid.symm)
        (by simpa using hstid) _
    split
    · next hp =>
        rw [ApproachRow.is_iff, hkey] at hp
        simp only [ApproachRow.key, Prod.mk.injEq] at hp
        have hshare : settlement.share a.scopeKey a.taskId a.approachKey
            = settlement.consumedEpochs := if_pos ⟨hp.1.symm, hp.2.1.symm, hp.2.2.symm⟩
        have hshare' : settlement.debit.share a.scopeKey a.taskId a.approachKey
            = sqlAdd settlement.consumedEpochs 1 := if_pos ⟨hp.1.symm, hp.2.1.symm, hp.2.2.symm⟩
        -- the debited settlement is part of the new total
        have hle : sqlAdd settlement.consumedEpochs 1
            ≤ settledTotal a.scopeKey a.taskId a.approachKey (updateWhere
              (fun st => st.checkpointId = checkpointId) SettlementRow.debit s.settlements) := by
          rw [← hshare']
          refine List.single_le_sum (fun v hv => ?_) _ (List.mem_map_of_mem
            (mem_updateWhere_of hst (by simpa using hstid)))
          obtain ⟨st, hst', rfl⟩ := List.mem_map.mp hv
          have hpos : 0 ≤ st.consumedEpochs := by
            revert st
            refine hupdated _ (fun st hst' _ _ => (h.settled st hst').bounds.1) fun _ => ?_
            exact hnonneg.trans hbounds.2.2.1
          unfold SettlementRow.share
          split
          · exact hpos
          · exact le_rfl
        refine ⟨hacc.normal, hacc.limit, fun hlt => ?_⟩
        change settledTotal a.scopeKey a.taskId a.approachKey (updateWhere
          (fun st => st.checkpointId = checkpointId) SettlementRow.debit s.settlements) < 2 ^ 63 at hlt
        change sqlAdd a.consumedEpochs 1 = settledTotal a.scopeKey a.taskId a.approachKey
          (updateWhere (fun st => st.checkpointId = checkpointId) SettlementRow.debit s.settlements)
        have hstep := hbounds.2.2.2 (by omega)
        rw [hshare, hshare'] at htotal
        rw [htotal, hacc.total (by omega), hstep, sqlAdd_of_lt (by omega)]
        omega
    · next hp =>
        have hother : ∀ st : SettlementRow, st.scopeKey = settlement.scopeKey →
            st.taskId = settlement.taskId → st.approachKey = settlement.approachKey →
            st.share a.scopeKey a.taskId a.approachKey = 0 := by
          intro st hscope htask happroach
          refine if_neg fun hst' => hp (ApproachRow.is_iff.mpr ?_)
          rw [hkey, ← hscope, ← htask, ← happroach, hst'.1, hst'.2.1, hst'.2.2]
          rfl
        refine ⟨hacc.normal, hacc.limit, fun hlt => ?_⟩
        rw [hother settlement rfl rfl rfl, hother settlement.debit rfl rfl rfl, sub_zero,
          add_zero] at htotal
        dsimp only at hlt ⊢
        rw [htotal] at hlt ⊢
        exact hacc.total hlt
  · intro c first hc
    rw [hfirst] at hc
    obtain ⟨st, hst', hid⟩ := h.firsts c first hc
    refine ⟨_, List.mem_map_of_mem hst', ?_⟩
    dsimp only
    split <;> exact hid
  · intro r
    rw [mem_reservedBy_append, hreservedBy, ← h.reserved]
    simp [eq_comm]
  · intro r hr
    rcases List.mem_append.mp hr with hr | hr
    · obtain ⟨hne, st, hst', hid⟩ := h.debited r hr
      refine ⟨hne, _, List.mem_map_of_mem hst', ?_⟩
      dsimp only
      split <;> exact hid
    · obtain rfl := List.mem_singleton.mp hr
      exact ⟨hnamed, _, mem_updateWhere_of hst (by simpa using hstid), hstid⟩

/-- **One transaction keeps the books.** -/
theorem Booked.step (h : Booked log s) {op : BudgetOp} (hop : op.Allowed s) :
    Booked (log ++ [(op, (budgetStep s op).1)]) (budgetStep s op).2 := by
  cases op with
  | settle scope checkpointId taskId approachKey budgetLimit consumedEpochs =>
      simp only [budgetStep]
      rcases hres : s.settleContinuationApproach scope checkpointId taskId approachKey budgetLimit
        consumedEpochs with e | ⟨res, s'⟩
      · exact h.same nofun nofun
      · have hsettles := settle_spec hres
        cases res with
        | none => cases hsettles; exact h.same nofun nofun
        | some state =>
            by_cases hdone : ∃ st ∈ s.settlements, st.checkpointId = checkpointId
            · obtain rfl := h.settles_again hsettles hdone
              refine h.same (fun c v hc => ?_) nofun
              obtain ⟨rfl, -⟩ := Prod.mk.inj (Option.some.inj hc)
              obtain ⟨st, hst, rfl⟩ := hdone
              obtain ⟨first, hfirst, -⟩ := (h.settled st hst).exact_
              exact ⟨first, hfirst⟩
            · exact h.settles_new (le_max_left 0 consumedEpochs) hsettles
                (fun st hst hid => hdone ⟨st, hst, hid⟩) rfl rfl
  | reserve scope checkpointId epochId =>
      simp only [budgetStep]
      rcases hres : s.reserveContinuationEpoch scope checkpointId epochId with e | ⟨answer, s'⟩
      · exact h.same nofun nofun
      · obtain ⟨hnamed, hreserves⟩ := reserve_spec_budget hres
        cases hreserves with
        | found r hr hepoch =>
            refine h.same nofun fun r' hr' => ?_
            by_cases hsame : r.scopeKey = scope.key ∧ r.checkpointId = checkpointId
            · rw [decide_eq_true hsame] at hr'
              obtain rfl := Option.some.inj hr'
              rw [← hepoch, ← hsame.1, ← hsame.2]
              exact hr
            · rw [decide_eq_false hsame] at hr'
              cases hr'
        | denied => exact h.same nofun nofun
        | debits c t contract settlement approach hfresh hc hcid hcontract ht httask htscope hst
            hstid =>
            exact (h.debits hnamed hfresh hc hcid hcontract ht httask htscope hst hstid rfl rfl).2
  | environment tasks checkpoints => exact h.environment hop

end Steps

theorem BudgetRun.booked {log : BudgetLog} {s : RuntimeState} (h : BudgetRun log s) :
    Booked log s := by
  induction h with
  | start =>
      exact ⟨.nil, .nil, .nil, .nil, .nil, nofun, nofun, nofun, fun r => by simp [RuntimeState.empty],
        nofun⟩
  | next op _ hop ih => exact ih.step hop

/-! ## The budget is exact -/

/-- The checkpoint's settlement is within its contract's budget, and its
approach within its limit. -/
def WithinBudget (s : RuntimeState) (checkpointId : String) : Prop :=
  ∃ st ∈ s.settlements, st.checkpointId = checkpointId
    ∧ (∃ c ∈ s.checkpoints, c.checkpointId = checkpointId ∧ ∃ contract,
      c.continuation = some contract ∧ st.consumedEpochs ≤ contract.boundedEpochBudget)
    ∧ ∃ a ∈ s.approaches, a.key = (st.scopeKey, st.taskId, st.approachKey)
      ∧ a.consumedEpochs ≤ a.budgetLimit

structure BudgetAccounting (log : BudgetLog) (s : RuntimeState) : Prop where
  /-- a checkpoint that was settled has its settlement, and no other has -/
  settled : ∀ checkpointId, (∃ st ∈ s.settlements, st.checkpointId = checkpointId)
    ↔ (firstSettle? log checkpointId).isSome
  /-- a settlement is its first settle and the epochs reserved for it -/
  settlement : ∀ st ∈ s.settlements, ∀ first, firstSettle? log st.checkpointId = some first →
    first + (reservedEpochs log st.checkpointId).length < 2 ^ 63 →
    st.consumedEpochs = first + (reservedEpochs log st.checkpointId).length
  /-- an approach is the sum of its settlements -/
  approach : ∀ a ∈ s.approaches,
    settledTotal a.scopeKey a.taskId a.approachKey s.settlements < 2 ^ 63 →
    a.consumedEpochs = settledTotal a.scopeKey a.taskId a.approachKey s.settlements
  /-- a new reservation stays within both budgets -/
  bounded : ∀ {pre post scope checkpointId epochId s₁},
    log = pre ++ (.reserve scope checkpointId epochId, .ok (.reserved true)) :: post →
    BudgetRun pre s₁ → (∀ r ∈ pre.filterMap reservedBy?, r.epochId ≠ epochKey epochId) →
    WithinBudget (budgetStep s₁ (.reserve scope checkpointId epochId)).2 checkpointId
  /-- a granted reservation is granted again, and debits nothing more -/
  reserved_again : ∀ {pre post scope checkpointId epochId output s₁},
    log = pre ++ (.reserve scope checkpointId epochId, output) :: post → BudgetRun pre s₁ →
    ⟨epochKey epochId, scope.key, checkpointId⟩ ∈ pre.filterMap reservedBy? →
    output = .ok (.reserved true)
      ∧ (budgetStep s₁ (.reserve scope checkpointId epochId)).2 = s₁
  /-- an epoch that is reserved elsewhere is denied, and debits nothing -/
  reserved_elsewhere : ∀ {pre post scope checkpointId epochId output s₁},
    log = pre ++ (.reserve scope checkpointId epochId, output) :: post → BudgetRun pre s₁ →
    (∃ r ∈ pre.filterMap reservedBy?, r.epochId = epochKey epochId
      ∧ ¬ (r.scopeKey = scope.key ∧ r.checkpointId = checkpointId)) →
    output = .ok (.reserved false)
      ∧ (budgetStep s₁ (.reserve scope checkpointId epochId)).2 = s₁
  /-- a settle of a settled checkpoint changes nothing -/
  settled_again : ∀ {pre post scope checkpointId taskId approachKey limit consumed output s₁},
    log = pre ++ (.settle scope checkpointId taskId approachKey limit consumed, output) :: post →
    BudgetRun pre s₁ → (firstSettle? pre checkpointId).isSome →
    (budgetStep s₁ (.settle scope checkpointId taskId approachKey limit consumed)).2 = s₁

theorem length_reservedEpochs {log : BudgetLog} {s : RuntimeState} (h : Booked log s)
    (checkpointId : String) : (reservedEpochs log checkpointId).length
      = s.reservations.countP fun r => r.checkpointId = checkpointId := by
  have hnodup : ((s.reservations.filter fun r => r.checkpointId = checkpointId).map
      (·.epochId)).Nodup := h.epochIds.sublist (List.filter_sublist.map _)
  have hmem : ∀ epoch, epoch ∈ reservedEpochs log checkpointId ↔ epoch ∈
      (s.reservations.filter fun r => r.checkpointId = checkpointId).map (·.epochId) := by
    intro epoch
    simp only [reservedEpochs, List.mem_dedup, List.mem_map, List.mem_filter, ← h.reserved]
  have hperm : (reservedEpochs log checkpointId).Perm _ :=
    (List.perm_ext_iff_of_nodup (List.nodup_dedup _) hnodup).mpr hmem
  rw [hperm.length_eq, List.length_map, List.countP_eq_length_filter]

/-- The answer to an epoch that has a reservation. -/
theorem budgetStep_found {log : BudgetLog} {s : RuntimeState} (h : Booked log s)
    (scope : RuntimeScope) (checkpointId epochId : String) {r : ReservationRow}
    (hr : r ∈ s.reservations) (hepoch : r.epochId = epochKey epochId) :
    budgetStep s (.reserve scope checkpointId epochId)
      = (.ok (.reserved (r.scopeKey = scope.key ∧ r.checkpointId = checkpointId)), s) := by
  have hnamed : epochKey epochId ≠ "" := hepoch ▸ (h.debited r hr).1
  have hrequired : requiredText epochId 256 = some (epochKey epochId) := if_neg hnamed
  have hfind : s.reservations.find? (fun r => r.epochId = epochKey epochId) = some r :=
    h.epochIds.find?_eq_some hr (by simpa using hepoch)
      fun x hx => (of_decide_eq_true hx).trans hepoch.symm
  simp only [budgetStep, RuntimeState.reserveContinuationEpoch, hrequired, hfind]

/-- **The continuation budget is exact**, in every interleaving. -/
theorem continuation_budget_accounting {log : BudgetLog} {s : RuntimeState}
    (h : BudgetRun log s) : BudgetAccounting log s := by
  have hbooked := h.booked
  have hentry : ∀ {pre op output post s₁}, log = pre ++ (op, output) :: post →
      BudgetRun pre s₁ → output = (budgetStep s₁ op).1 := by
    rintro pre op output post s₁ rfl hpre
    obtain ⟨s₂, hpre', hpost⟩ := h.split
    obtain rfl := hpre.state_unique hpre'
    exact hpost.head.1
  refine ⟨fun c => ⟨?_, fun hc => ?_⟩, ?_, fun a ha => (hbooked.totals a ha).total, ?_, ?_, ?_, ?_⟩
  · rintro ⟨st, hst, rfl⟩
    obtain ⟨first, hfirst, -⟩ := (hbooked.settled st hst).exact_
    rw [hfirst]
    rfl
  · obtain ⟨first, hfirst⟩ := Option.isSome_iff_exists.mp hc
    exact hbooked.firsts c first hfirst
  · intro st hst first hfirst hlt
    obtain ⟨first', hfirst', -, hexact⟩ := (hbooked.settled st hst).exact_
    obtain rfl := Option.some.inj (hfirst.symm.trans hfirst')
    rw [length_reservedEpochs hbooked] at hlt ⊢
    exact hexact hlt
  · intro pre post scope checkpointId epochId s₁ hlog hpre hnew
    have hbooked₁ := BudgetRun.booked hpre
    have houtput := hentry hlog hpre
    simp only [budgetStep] at houtput ⊢
    rcases hres : s₁.reserveContinuationEpoch scope checkpointId epochId with e | ⟨answer, s'⟩
    · rw [hres] at houtput
      cases houtput
    · rw [hres] at houtput
      obtain rfl : answer = true := by simpa using houtput.symm
      obtain ⟨hnamed, hreserves⟩ := reserve_spec_budget hres
      generalize hans : true = answer at hreserves
      cases hreserves with
      | found r hr hepoch => exact absurd hepoch (hnew r ((hbooked₁.reserved r).mp hr))
      | denied => cases hans
      | debits c t contract settlement approach hfresh hc hcid hcontract ht httask htscope hst hstid
          happroach his hbudget hlimit =>
          have hkey := (hbooked₁.debits (e := (.reserve scope checkpointId epochId,
            .ok (.reserved true))) hnamed hfresh hc hcid hcontract ht httask htscope hst hstid rfl
            rfl).1
          have hdebit := sqlAdd_one (hbooked₁.settled settlement hst).bounds.2
          have hroom := (hbooked₁.totals approach happroach).limit
          refine ⟨_, mem_updateWhere_of hst (by simpa using hstid), hstid,
            ⟨c, hc, hcid, contract, hcontract, ?_⟩, _, mem_updateWhere_of happroach ?_,
            ApproachRow.is_iff.mp his, ?_⟩
          · exact hdebit.1.trans (by omega)
          · rw [ApproachRow.is_iff, hkey]
            exact ApproachRow.is_iff.mp his
          · change sqlAdd approach.consumedEpochs 1 ≤ approach.budgetLimit
            rw [sqlAdd_of_lt (by omega)]
            omega
  · intro pre post scope checkpointId epochId output s₁ hlog hpre hr
    have hbooked₁ := BudgetRun.booked hpre
    have hfound := budgetStep_found hbooked₁ scope checkpointId epochId
      ((hbooked₁.reserved _).mpr hr) rfl
    rw [hentry hlog hpre, hfound]
    simp
  · rintro pre post scope checkpointId epochId output s₁ hlog hpre ⟨r, hr, hepoch, hother⟩
    have hbooked₁ := BudgetRun.booked hpre
    have hfound := budgetStep_found hbooked₁ scope checkpointId epochId
      ((hbooked₁.reserved _).mpr hr) hepoch
    rw [hentry hlog hpre, hfound, decide_eq_false hother]
    exact ⟨rfl, rfl⟩
  · intro pre post scope checkpointId taskId approachKey limit consumed output s₁ _ hpre hdone
    have hbooked₁ := BudgetRun.booked hpre
    obtain ⟨first, hfirst⟩ := Option.isSome_iff_exists.mp hdone
    simp only [budgetStep]
    rcases hres : s₁.settleContinuationApproach scope checkpointId taskId approachKey limit consumed
      with e | ⟨res, s'⟩
    · rfl
    · exact hbooked₁.settles_again (settle_spec hres) (hbooked₁.firsts _ first hfirst)

/-! ## What normalisation, denials and 64 bits do to it -/

/-- A running task whose latest checkpoint is this one. -/
def budgetTask (checkpointId : String) : TaskRow :=
  ⟨"t", "s", .running, some checkpointId, 0⟩

def budgetCheckpoint (checkpointId : String) (revision : Int) : CheckpointRow :=
  ⟨checkpointId, "t", revision, .continue, some ⟨3, "k", 0⟩⟩

/-- An epoch is denied before the checkpoint is settled and granted after
it, and granted again under an id that only differs by a blank. -/
def reservedTwice : List BudgetOp :=
  [.environment [budgetTask "c"] [budgetCheckpoint "c" 2],
    .reserve ⟨"s", "Bot"⟩ "c" "e", .settle ⟨"s", "Bot"⟩ "c" "t" "k" 3 0,
    .reserve ⟨"s", "Bot"⟩ "c" "e", .reserve ⟨"s", "Bot"⟩ "c" " e"]

/-- Two checkpoints of one approach are settled with all that a column can
hold. -/
def settledOver : List BudgetOp :=
  [.environment [budgetTask "c"] [budgetCheckpoint "c" 2],
    .settle ⟨"s", "Bot"⟩ "c" "t" "k" 3 (2 ^ 63 - 1),
    .environment [budgetTask "d"] [budgetCheckpoint "c" 2, budgetCheckpoint "d" 3],
    .settle ⟨"s", "Bot"⟩ "d" "t" "k" 3 (2 ^ 63 - 1)]

theorem budgetRun_reservedTwice :
    BudgetRun (exec budgetStep .empty reservedTwice).1 (exec budgetStep .empty reservedTwice).2 := by
  refine .next _ (.next _ (.next _ (.next _ (.next _ .start ?_) trivial) trivial) trivial) trivial
  exact ⟨by decide, by decide, by decide, by decide⟩

theorem budgetRun_settledOver :
    BudgetRun (exec budgetStep .empty settledOver).1 (exec budgetStep .empty settledOver).2 := by
  refine .next _ (.next _ (.next _ (.next _ .start ?_) trivial) ?_) trivial
  · exact ⟨by decide, by decide, by decide, by decide⟩
  · exact ⟨by decide, by decide, by decide, by decide⟩

theorem continuation_budget_accounting_reservedTwice :
    BudgetAccounting (exec budgetStep .empty reservedTwice).1
        (exec budgetStep .empty reservedTwice).2
      ∧ reservedEpochs (exec budgetStep .empty reservedTwice).1 "c" = ["e"] :=
  ⟨continuation_budget_accounting budgetRun_reservedTwice, by decide⟩

/-- Two different epoch ids are reserved and one is debited, the same
reservation is denied and then granted, and an approach is not the sum of
its settlements. -/
theorem budget_not_exact :
    (BudgetRun (exec budgetStep .empty reservedTwice).1 (exec budgetStep .empty reservedTwice).2
      ∧ (exec budgetStep .empty reservedTwice).1.map Prod.snd
        = [.ok .done, .ok (.reserved false), .ok (.settled (some ⟨3, 0, 3⟩)),
          .ok (.reserved true), .ok (.reserved true)]
      ∧ (exec budgetStep .empty reservedTwice).2.settlements = [⟨"c", "s", "t", "k", 1⟩])
    ∧ BudgetRun (exec budgetStep .empty settledOver).1 (exec budgetStep .empty settledOver).2
      ∧ (exec budgetStep .empty settledOver).2.settlements
        = [⟨"c", "s", "t", "k", 2 ^ 63 - 1⟩, ⟨"d", "s", "t", "k", 2 ^ 63 - 1⟩]
      ∧ (exec budgetStep .empty settledOver).2.approaches = [⟨"s", "t", "k", 3, 2 ^ 64⟩] := by
  refine ⟨⟨budgetRun_reservedTwice, by decide, by decide⟩, budgetRun_settledOver, ?_, ?_⟩
  · decide +kernel
  · decide +kernel

end MineBot
