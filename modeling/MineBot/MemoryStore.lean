import MineBot.Forwarding
import MineBot.History
import MineBot.RuntimeRecords
import MineBot.Table
import MineBot.Text

/-!
# The memory table

`create_memory`, `update_memory`, `delete_memory` and `supersede_memory`
of `RuntimeStateStore` over the rows of `memory_entries`. A call answers a
record or raises, and leaves the rows for the next one. `superseded_by`
makes the rows of a scope a table of forwarding pointers; here is what
each call does to that table.

An id drawn by `uuid4` and the clock are arguments. A coordinate that is
no finite number is `none`.
-/

namespace MineBot

namespace MemoryStore

open Table

/-! ## Records -/

inductive MemoryKind where
  | spatial
  | episodic
  | reflective
deriving DecidableEq

inductive MemorySource where
  | observed
  | playerTold
  | selfInferred
deriving DecidableEq

def MemorySource.value : MemorySource → String
  | .observed => "observed"
  | .playerTold => "player_told"
  | .selfInferred => "self_inferred"

/-- `_MEMORY_SOURCE_RANK`. -/
def MemorySource.rank : MemorySource → Nat
  | .observed => 4
  | .playerTold => 3
  | .selfInferred => 2

/-- A row of `memory_entries`. -/
structure MemoryRecord where
  memoryId : String
  scopeKey : String
  revision : Int
  kind : MemoryKind
  source : MemorySource
  subjectKey : String
  title : String
  content : String
  evidenceRef : String
  dimension : Option String
  point : Option (List Rat)
  region : Option (List Rat)
  createdAt : Nat
  updatedAt : Nat
  evidenceHandles : List String
  supersededBy : Option String
deriving DecidableEq

/-- What the memory calls raise. -/
inductive MemoryError where
  /-- `MemoryStateConflict` -/
  | conflict (message : String)
  /-- `ValueError` -/
  | invalid (message : String)
  /-- `AssertionError`: the record just written is not there -/
  | recordMissing
deriving DecidableEq

/-- What a caller says about a memory. -/
structure MemoryDraft where
  kind : MemoryKind
  source : MemorySource
  title : String
  content : String
  subjectKey : String
  evidenceRef : String
  dimension : Option String
  point : Option (List (Option Rat))
  region : Option (List (Option Rat))

/-- The values that are stored. -/
structure MemoryValues where
  kind : MemoryKind
  source : MemorySource
  title : String
  content : String
  subjectKey : String
  evidenceRef : String
  dimension : Option String
  point : Option (List Rat)
  region : Option (List Rat)

/-! ## Validation -/

/-- `_required_text`, raising. -/
def requireMemoryText (field value : String) (maxLength : Nat) : Except MemoryError String :=
  match requiredText value maxLength with
  | some clean => .ok clean
  | none => .error (.invalid s!"{field} must not be empty")

/-- `_validated_point`. -/
def validatedPoint (field : String) : Option (List (Option Rat)) →
    Except MemoryError (Option (List Rat))
  | none => .ok none
  | some value =>
      if value.length ≠ 3 then .error (.invalid s!"{field} must contain exactly 3 coordinates")
      else match value.mapM id with
        | some clean => .ok (some clean)
        | none => .error (.invalid s!"{field} coordinates must be finite")

/-- `clean[0] > clean[3] or clean[1] > clean[4] or clean[2] > clean[5]`. -/
def boundsCrossed (clean : List Rat) : Bool :=
  ((clean.take 3).zip (clean.drop 3)).any fun (low, high) => high < low

/-- `_validated_region`. -/
def validatedRegion (field : String) : Option (List (Option Rat)) →
    Except MemoryError (Option (List Rat))
  | none => .ok none
  | some value =>
      if value.length ≠ 6 then .error (.invalid s!"{field} must contain exactly 6 bounds")
      else match value.mapM id with
        | none => .error (.invalid s!"{field} bounds must be finite")
        | some clean =>
            if boundsCrossed clean then
              .error (.invalid s!"{field} minimum bounds must not exceed maximum bounds")
            else .ok (some clean)

/-- `_validated_memory_values`. -/
def validatedMemoryValues (draft : MemoryDraft) : Except MemoryError MemoryValues := do
  let title ← requireMemoryText "title" draft.title 500
  let content ← requireMemoryText "content" draft.content 12000
  let subjectKey := pyStrip (boundedText draft.subjectKey 256)
  let evidenceRef := pyStrip (boundedText draft.evidenceRef 512)
  if draft.source = .observed ∧ evidenceRef = "" then
    throw (.invalid "observed memory requires an authoritative evidence_ref")
  let dimension := draft.dimension.bind fun dimension =>
    if pyStrip dimension = "" then none else some (pyStrip (boundedText dimension 128))
  let point ← validatedPoint "point" draft.point
  let region ← validatedRegion "region" draft.region
  if point.isSome ∧ region.isSome then
    throw (.invalid "memory geometry must be a point or region, not both")
  if (point.isSome ∨ region.isSome) ∧ dimension = none then
    throw (.invalid "memory geometry requires dimension")
  if draft.kind = .spatial ∧ point = none ∧ region = none then
    throw (.invalid "spatial memory requires point or region geometry")
  return { kind := draft.kind, source := draft.source, title, content, subjectKey, evidenceRef,
           dimension, point, region }

/-- The loop of `_normalized_evidence_handles`. -/
def collectHandles (seen : List String) : List String → List String
  | [] => seen
  | item :: items =>
      let handle := String.ofList ((pyStrip item).toList.take 256)
      let seen := if handle ≠ "" ∧ handle ∉ seen then seen ++ [handle] else seen
      if 16 ≤ seen.length then seen else collectHandles seen items

/-- `_normalized_evidence_handles`. -/
def normalizedEvidenceHandles (raw : List String) : List String := collectHandles [] raw

/-! ## The calls -/

/-- The primary key and `idx_memory_subject`. -/
def MemoriesUnique (rows : List MemoryRecord) : Prop :=
  Keyed (·.memoryId) rows ∧
    Keyed (fun r => (r.scopeKey, r.subjectKey)) (rows.filter (·.subjectKey ≠ ""))

instance (rows : List MemoryRecord) : Decidable (MemoriesUnique rows) :=
  inferInstanceAs (Decidable (_ ∧ _))

/-- `get_memory`. -/
def getMemory (rows : List MemoryRecord) (scopeKey memoryId : String) : Option MemoryRecord :=
  rows.find? fun r => r.scopeKey = scopeKey ∧ r.memoryId = memoryId

/-- `WHERE scope_key = ? AND memory_id = ? AND revision = ?`. -/
def memoryAt (scopeKey memoryId : String) (revision : Int) (r : MemoryRecord) : Bool :=
  r.scopeKey = scopeKey ∧ r.memoryId = memoryId ∧ r.revision = revision

/-- The row `create_memory` inserts. -/
def newMemory (scopeKey : String) (values : MemoryValues) (handles : List String)
    (memoryId : String) (now : Nat) : MemoryRecord where
  memoryId := memoryId
  scopeKey := scopeKey
  revision := 1
  kind := values.kind
  source := values.source
  subjectKey := values.subjectKey
  title := values.title
  content := values.content
  evidenceRef := values.evidenceRef
  dimension := values.dimension
  point := values.point
  region := values.region
  createdAt := utcNow now
  updatedAt := utcNow now
  evidenceHandles := handles
  supersededBy := none

/-- What `update_memory` sets. -/
def MemoryRecord.rewritten (values : MemoryValues) (now : Nat) (r : MemoryRecord) : MemoryRecord :=
  { r with
    revision := r.revision + 1
    kind := values.kind
    source := values.source
    subjectKey := values.subjectKey
    title := values.title
    content := values.content
    evidenceRef := values.evidenceRef
    dimension := values.dimension
    point := values.point
    region := values.region
    updatedAt := utcNow now }

/-- What `supersede_memory` sets. -/
def MemoryRecord.retired (successor : String) (now : Nat) (r : MemoryRecord) : MemoryRecord :=
  { r with supersededBy := some successor, revision := r.revision + 1, updatedAt := utcNow now }

/-- The answer of a call, and the rows it leaves. -/
abbrev MemoryOutcome := Except MemoryError (Option MemoryRecord) × List MemoryRecord

/-- `record = self.get_memory(scope, memory_id)`, after the write. -/
def answerMemory (rows : List MemoryRecord) (scopeKey memoryId : String) : MemoryOutcome :=
  match getMemory rows scopeKey memoryId with
  | some record => (.ok (some record), rows)
  | none => (.error .recordMissing, rows)

/-- `create_memory`. -/
def createMemory (rows : List MemoryRecord) (scopeKey : String) (draft : MemoryDraft)
    (evidenceHandles : List String) (memoryId : String) (now : Nat) : MemoryOutcome :=
  let handles := normalizedEvidenceHandles evidenceHandles
  match validatedMemoryValues draft with
  | .error e => (.error e, rows)
  | .ok values =>
      let rows' := rows ++ [newMemory scopeKey values handles memoryId now]
      if MemoriesUnique rows' then answerMemory rows' scopeKey memoryId
      else (.error (.conflict s!"memory subject already exists in scope: {values.subjectKey}"), rows)

/-- `update_memory`. -/
def updateMemory (rows : List MemoryRecord) (scopeKey memoryId : String) (expectedRevision : Int)
    (draft : MemoryDraft) (now : Nat) : MemoryOutcome :=
  match getMemory rows scopeKey memoryId with
  | none => (.error (.conflict s!"memory not found in scope: {memoryId}"), rows)
  | some current =>
      if current.revision ≠ expectedRevision then
        (.error (.conflict (s!"memory revision conflict: memory_id={memoryId} " ++
          s!"expected={expectedRevision} actual={current.revision}")), rows)
      else match validatedMemoryValues draft with
        | .error e => (.error e, rows)
        | .ok values =>
            if values.source.rank < current.source.rank then
              (.error (.conflict
                ("lower-trust memory source cannot overwrite a higher-trust entry: " ++
                  s!"{current.source.value} -> {values.source.value}")), rows)
            else
              let rows' := updateWhere (memoryAt scopeKey memoryId expectedRevision)
                (MemoryRecord.rewritten values now) rows
              if ¬ MemoriesUnique rows' then
                (.error (.conflict s!"memory subject already exists in scope: {values.subjectKey}"),
                  rows)
              else if rows.countP (memoryAt scopeKey memoryId expectedRevision) ≠ 1 then
                (.error (.conflict s!"memory revision conflict: {memoryId}"), rows')
              else answerMemory rows' scopeKey memoryId

/-- `delete_memory`. -/
def deleteMemory (rows : List MemoryRecord) (scopeKey memoryId : String) (expectedRevision : Int) :
    MemoryOutcome :=
  let rows' := rows.filter fun r => !memoryAt scopeKey memoryId expectedRevision r
  if rows.countP (memoryAt scopeKey memoryId expectedRevision) ≠ 1 then
    (.error (.conflict s!"memory revision conflict or missing: {memoryId}"), rows')
  else (.ok none, rows')

/-- `supersede_memory`. -/
def supersedeMemory (rows : List MemoryRecord) (scopeKey memoryId supersededBy : String)
    (expectedRevision : Int) (now : Nat) : MemoryOutcome :=
  let successor := pyStrip supersededBy
  if successor = "" then
    (.error (.conflict "superseded_by must name a replacement memory"), rows)
  else if successor = memoryId then
    (.error (.conflict "a memory cannot supersede itself"), rows)
  else if getMemory rows scopeKey successor = none then
    (.error (.conflict s!"replacement memory not found: {successor}"), rows)
  else
    let rows' := updateWhere (memoryAt scopeKey memoryId expectedRevision)
      (MemoryRecord.retired successor now) rows
    if rows.countP (memoryAt scopeKey memoryId expectedRevision) ≠ 1 then
      (.error (.conflict s!"memory revision conflict or missing: {memoryId}"), rows')
    else answerMemory rows' scopeKey memoryId

inductive MemoryOp where
  | create (draft : MemoryDraft) (evidenceHandles : List String) (memoryId : String)
  | update (memoryId : String) (expectedRevision : Int) (draft : MemoryDraft)
  | delete (memoryId : String) (expectedRevision : Int)
  | supersede (memoryId supersededBy : String) (expectedRevision : Int)

/-- A call, in a scope and at a clock reading. -/
structure MemoryCall where
  scopeKey : String
  now : Nat
  op : MemoryOp

/-- One call. -/
def step (rows : List MemoryRecord) (call : MemoryCall) : MemoryOutcome :=
  match call.op with
  | .create draft handles memoryId => createMemory rows call.scopeKey draft handles memoryId call.now
  | .update memoryId revision draft =>
      updateMemory rows call.scopeKey memoryId revision draft call.now
  | .delete memoryId revision => deleteMemory rows call.scopeKey memoryId revision
  | .supersede memoryId supersededBy revision =>
      supersedeMemory rows call.scopeKey memoryId supersededBy revision call.now

end MemoryStore

end MineBot
