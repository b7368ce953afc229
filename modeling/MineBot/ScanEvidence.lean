import Mathlib
import MineBot.ObjectiveText

/-!
# The evidence of a scan

`ExplorationTransactions.explore_for` scans where it stands and wherever a
frontier took it. A scan pages through `findBlocks` and then asks for the
nearby entities; what ends well is recorded, with what was found and, where
nothing was, with negative evidence.

The body is any function of the calls so far. A scan returns the calls it made
beside its result, so that a record can be compared with the answers it rests
on. `readPages_cases` is what the paging can come to; the records of a run are
those of its scans (`explored_records`).
-/

namespace MineBot

namespace Exploration

/-- What Python makes of values. -/
structure Python where
  /-- `str(value)` -/
  str : Json → String
  casefold : String → String
  isDigit : String → Bool
  /-- `int(value)`; `none` where it raises -/
  int : Json → Option Int
  /-- `float(value)`; `none` where it raises -/
  float : Json → Option ℚ

structure PerceptionResult where
  ok : Bool
  complete : Bool
  data : JsonObject := []
  uncertainty : List Json := []
  next : Option String := none
  error : Option String := none

structure Request where
  scope : String
  params : JsonObject

structure Call where
  request : Request
  answer : PerceptionResult

/-- `body.perceive`, which may depend on all it was asked before. -/
abbrev Body := List Call → Request → PerceptionResult

abbrev Position := Int × Int × Int

abbrev Region := Int × Int

structure ExplorationTargets where
  blocks : List String
  entities : List String
  querySignature : String

inductive CoverageStatus where
  | covered
  | found
  | mobilityBlocked
  | unloadedBoundary
deriving DecidableEq

structure ScanResult where
  blocks : List JsonObject
  entities : List JsonObject
  uncertainty : List JsonObject
  terminalReason : Option String := none
  coverageStatus : Option CoverageStatus := none

def ScanResult.found (scan : ScanResult) : Bool := !scan.blocks.isEmpty || !scan.entities.isEmpty

def findBlockPageSize : Nat := 32

def findBlockMaxPages : Nat := 4

def coverageObservationLimit : Nat := 128

def defaultVerticalRadius : Nat := 20

section

variable (py : Python)

/-! ## Answers -/

/-- `value or default` -/
def orElse (value : Option Json) (default : Json) : Json :=
  match value with
  | some value => if value.truthy then value else default
  | none => default

def normalizeIdentifier (value : Option Json) : String :=
  Objective.removePrefix "minecraft:" (py.casefold (pyStrip (py.str (orElse value (.str "")))))

def contains (text part : String) : Bool := text.toList.tails.any (part.toList.isPrefixOf ·)

def isUnloadedReason (reason : String) : Bool :=
  let normalized := py.casefold reason
  contains normalized "unloaded" || contains normalized "chunk" || contains normalized "boundary"

/-- `_perception_terminal(perception, allow_partial=True)` -/
def perceptionTerminal (perception : PerceptionResult) : Option String :=
  if perception.ok then none
  else
    let error := py.casefold (perception.error.getD "")
    if contains error "missing" then some "body_missing"
    else if isUnloadedReason py error then some "unloaded_boundary"
    else some (if error = "" then "perception_incomplete" else error)

/-- The items that are dictionaries. -/
def objects (items : List Json) : List JsonObject :=
  items.filterMap fun item => match item with
    | .obj fields => some fields
    | _ => none

/-- `_uncertainty` -/
def uncertaintyOf (perception : PerceptionResult) : List JsonObject := objects perception.uncertainty

def perceptionNextCursor (perception : PerceptionResult) : Option Json :=
  let field (key : String) := (perception.data.get? key).filter (· ≠ .null)
  (field "nextStart").or ((field "next").or (perception.next.map .str))

def perceptionResumeParams : Json → Option JsonObject
  | .null => some []
  | .int n => some [("start", .int n)]
  | .bool b => some [("start", .bool b)]
  | .str cursor =>
      let stripped := pyStrip cursor
      if py.isDigit stripped then (py.int (.str stripped)).map fun n => [("start", .int n)]
      else some [("cursor", .str stripped)]
  | cursor => some [("cursor", .str (py.str cursor))]

def perceptionHasUnloadedBoundary (perception : PerceptionResult) : Bool :=
  (match py.int (orElse (perception.data.get? "unloaded_chunk_count") (.int 0)) with
    | some n => decide (0 < n)
    | none => false) ||
    (uncertaintyOf perception).any fun item =>
      isUnloadedReason py (py.str (orElse (item.get? "reason") (.str "")))

/-- The dictionaries in `value or []`; `none` for what cannot be iterated. -/
def listed (value : Option Json) : Option (List JsonObject) :=
  match orElse value (.arr []) with
  | .arr items => some (objects items)
  | .str _ | .obj _ => some []
  | _ => none

def ofTypes (types : List String) (item : JsonObject) : Bool :=
  decide (normalizeIdentifier py (item.get? "type") ∈ types)

/-- The items of the types, normalized. -/
def matching (types : List String) (normalized : JsonObject → Option JsonObject)
    (value : Option Json) : Option (List JsonObject) := do
  let items ← listed value
  (items.filter (ofTypes py types)).mapM normalized

def normalizedBlockMatch (item : JsonObject) : Option JsonObject := do
  let coordinate (key : String) := py.int (orElse (item.get? key) (.int 0))
  let x ← coordinate "x"
  let y ← coordinate "y"
  let z ← coordinate "z"
  let dist2 ← py.float (orElse (item.get? "dist2") (.float 0))
  return [("kind", .str "block"), ("type", .str (normalizeIdentifier py (item.get? "type"))),
    ("pos", .arr [.int x, .int y, .int z]),
    ("state", .str (py.str (orElse (item.get? "state") (.str "")))), ("dist2", .float dist2)]

def normalizedEntityMatch (item : JsonObject) : Option JsonObject := do
  let pos := match item.get? "pos" with
    | some (.arr values) => values
    | _ => []
  let pos ← (pos.take 3).mapM py.float
  let dist2 ← py.float (orElse (item.get? "dist2") (.float 0))
  return [("kind", .str "entity"), ("id", .str (py.str (orElse (item.get? "id") (.str "")))),
    ("type", .str (normalizeIdentifier py (item.get? "type"))),
    ("name", (item.get? "name").getD .null), ("pos", .arr (pos.map .float)),
    ("health", (item.get? "health").getD .null), ("dist2", .float dist2)]

/-! ## A scan -/

/-- How the paging ends: it breaks off, or it returns. -/
inductive PagesEnd where
  | complete
  | unloadedBoundary
  | pageLimited
  | matched
  | terminal (reason : String)

structure BlockRead where
  blocks : List JsonObject
  uncertainty : List JsonObject
  how : PagesEnd

def findBlocksRequest (targets : ExplorationTargets) (scanRadius : Nat) (resume : JsonObject) :
    Request where
  scope := "findBlocks"
  params := Dict.update [("types", .arr (targets.blocks.map .str)), ("radius", .int scanRadius),
    ("y_radius", .int (min defaultVerticalRadius (scanRadius * 2))),
    ("limit", .int findBlockPageSize)] resume

def nearbyEntitiesRequest (targets : ExplorationTargets) (scanRadius : Nat) : Request where
  scope := "nearbyEntities"
  params := [("radius", .int (min 32 (max scanRadius 16))), ("limit", .int 128),
    ("types", .arr (targets.entities.map .str))]

def isPageLimit (item : JsonObject) : Bool :=
  py.casefold (py.str (orElse (item.get? "reason") (.str ""))) = "page_limit"

variable (body : Body) (targets : ExplorationTargets) (scanRadius : Nat) (stopOnMatch : Bool)

/-- The pages that are left of `range(FIND_BLOCK_MAX_PAGES)`, with the calls
they make; `none` is an exception. -/
def readPages : (left : Nat) → (cursor : Json) → (seen : List String) →
    (blocks uncertainty : List JsonObject) → (log : List Call) → Option (BlockRead × List Call)
  | 0, _, _, blocks, uncertainty, _ => some (⟨blocks, uncertainty, .complete⟩, [])
  | left + 1, cursor, seen, blocks, uncertainty, log => do
      let request := findBlocksRequest targets scanRadius (← perceptionResumeParams py cursor)
      let call : Call := ⟨request, body log request⟩
      let perception := call.answer
      match perceptionTerminal py perception with
      | some reason => some (⟨blocks, uncertainty ++ uncertaintyOf perception, .terminal reason⟩, [call])
      | none =>
          let found ← matching py targets.blocks (normalizedBlockMatch py) (perception.data.get? "blocks")
          let blocks := blocks ++ found
          let uncertainty := uncertainty ++ uncertaintyOf perception
          if !blocks.isEmpty && stopOnMatch then some (⟨blocks, uncertainty, .matched⟩, [call])
          else if perception.complete then
            some (⟨blocks, uncertainty.filter (!isPageLimit py ·), .complete⟩, [call])
          else
            match perceptionNextCursor perception with
            | none =>
                if perceptionHasUnloadedBoundary py perception then
                  -- a valid partial read: the loaded snapshot is exhausted
                  some (⟨blocks, uncertainty, .unloadedBoundary⟩, [call])
                else some (⟨blocks, uncertainty, .terminal "scan_cursor_missing"⟩, [call])
            | some next =>
                let key := py.str next
                if key ∈ seen ∨ key = py.str cursor then
                  some (⟨blocks, uncertainty, .terminal "scan_cursor_invalid"⟩, [call])
                else if left = 0 then
                  some (⟨blocks, uncertainty ++ [[("reason", .str "scan_page_limit"),
                    ("pages", .int findBlockMaxPages), ("next_start", next)]], .pageLimited⟩, [call])
                else do
                  let (read, calls) ← readPages left next (seen ++ [py.str cursor]) blocks uncertainty
                    (log ++ [call])
                  some (read, call :: calls)

/-- The `findBlocks` part of `_scan_targets`. -/
def readBlocks (log : List Call) : Option (BlockRead × List Call) :=
  if targets.blocks.isEmpty then some (⟨[], [], .complete⟩, [])
  else readPages py body targets scanRadius stopOnMatch findBlockMaxPages (.int 0) [] [] [] log

/-- `_scan_targets` once the blocks are read. -/
def scanEntities (read : BlockRead) (log : List Call) : Option (ScanResult × List Call) :=
  let limited := match read.how with
    | .pageLimited => true
    | _ => false
  let status := match read.how with
    | .unloadedBoundary => some CoverageStatus.unloadedBoundary
    | _ => none
  let result (entities uncertainty : List JsonObject) : ScanResult :=
    { blocks := read.blocks, entities, uncertainty, coverageStatus := status
      terminalReason :=
        if limited && (targets.entities.isEmpty || read.blocks.isEmpty && entities.isEmpty) then
          some "scan_page_limit"
        else none }
  if targets.entities.isEmpty then some (result [] read.uncertainty, [])
  else do
    let request := nearbyEntitiesRequest targets scanRadius
    let call : Call := ⟨request, body log request⟩
    let perception := call.answer
    let uncertainty := read.uncertainty ++ uncertaintyOf perception
    match perceptionTerminal py perception with
    | some reason =>
        some ({ blocks := read.blocks, entities := [], uncertainty, terminalReason := some reason },
          [call])
    | none =>
        let entities ← matching py targets.entities (normalizedEntityMatch py)
          (perception.data.get? "entities")
        some (result entities uncertainty, [call])

/-- `_scan_targets`, with the calls it makes. -/
def scanTargets (log : List Call) : Option (ScanResult × List Call) := do
  let (read, pages) ← readBlocks py body targets scanRadius stopOnMatch log
  match read.how with
  | .matched =>
      some ({ blocks := read.blocks, entities := [], uncertainty := read.uncertainty }, pages)
  | .terminal reason =>
      some ({ blocks := read.blocks, entities := [], uncertainty := read.uncertainty
              terminalReason := some reason }, pages)
  | _ =>
      let (scan, calls) ← scanEntities py body targets scanRadius read (log ++ pages)
      some (scan, pages ++ calls)

end

/-! ## Records -/

/-- What `record_region` is given. -/
structure CoverageEvent where
  dimension : String
  querySignature : String
  region : Region
  status : CoverageStatus
  center : Position
  reason : String
  observations : List JsonObject := []
  negativeEvidence : List String := []
  uncertainty : List JsonObject := []

def dist2Of (item : JsonObject) : ℚ :=
  match item.get? "dist2" with
  | some (.float q) => q
  | _ => 0

/-- `_record_scan` -/
def recordScan (dimension : String) (targets : ExplorationTargets) (region : Region)
    (center : Position) (scan : ScanResult) (additional : List JsonObject) : CoverageEvent :=
  let found := (scan.blocks ++ scan.entities).mergeSort fun a b => decide (dist2Of a ≤ dist2Of b)
  { dimension, querySignature := targets.querySignature, region, center
    status := if scan.found then .found else scan.coverageStatus.getD .covered
    reason := if scan.found then "target_found" else "authoritative_negative_scan"
    observations := found.take coverageObservationLimit
    negativeEvidence :=
      (if !targets.blocks.isEmpty && scan.blocks.isEmpty then ["no_matching_blocks"] else []) ++
      (if !targets.entities.isEmpty && scan.entities.isEmpty then ["no_matching_entities"] else [])
    uncertainty := scan.uncertainty ++ additional ++
      (if coverageObservationLimit < found.length then
        [[("reason", .str "observations_truncated"), ("kept", .int coverageObservationLimit),
          ("omitted", .int (found.length - coverageObservationLimit))]]
      else []) }

/-- A record, and the calls of the scan it is `_record_scan`'s for. -/
structure Record where
  event : CoverageEvent
  scan : Option (List Call)

/-- What a round of the frontier loop comes to, up to the next scan. -/
inductive Leg where
  /-- A frontier was reached. -/
  | arrived (pos : Position) (uncertainty : List JsonObject)
  /-- It was not, which is recorded. -/
  | failed (region : Region) (unloaded : Bool) (center : Position) (reason : String)
      (uncertainty : List JsonObject)

structure Run where
  log : List Call
  coveredThisCall : List Region
  records : List Record

def regionKey (pos : Position) : Region := (pos.1 / 16, pos.2.2 / 16)

/-- What is asked of `explore_for`, and what it starts from. -/
structure Search where
  targets : ExplorationTargets
  scanRadius : Nat
  firstMatch : Bool
  maxRegions : Nat
  dimension : String
  settledBefore : List Region

section

variable (py : Python) (body : Body) (search : Search)

/-- A scan, recorded unless it is terminal; whether the search goes on. -/
def scanHere (pos : Position) (additional : List JsonObject) (run : Run) :
    Run × Bool :=
  match scanTargets py body search.targets search.scanRadius search.firstMatch run.log with
  | none => (run, false)
  | some (scan, calls) =>
      let region := regionKey pos
      let log := run.log ++ calls
      match scan.terminalReason with
      | some reason =>
          let records := if reason = "unloaded_boundary" then
            [⟨{ dimension := search.dimension, querySignature := search.targets.querySignature
                region, status := .unloadedBoundary, center := pos, reason
                uncertainty := scan.uncertainty }, none⟩] else []
          ({ run with log, records := run.records ++ records }, false)
      | none =>
          let event := recordScan search.dimension search.targets region pos scan additional
          ({ log, records := run.records ++ [⟨event, some calls⟩]
             coveredThisCall :=
               if region ∈ search.settledBefore ∨ region ∈ run.coveredThisCall then
                 run.coveredThisCall
               else run.coveredThisCall ++ [region] },
            !(scan.found && search.firstMatch))

/-- The frontier loop, over the rounds that the navigation and the budgets of
distance and attempts leave it. -/
def frontierLoop : List Leg → Run → Run
  | [], run => run
  | leg :: legs, run =>
      if search.maxRegions ≤ run.coveredThisCall.length then run
      else
        match leg with
        | .failed region unloaded center reason uncertainty =>
            frontierLoop legs { run with records := run.records ++
              [⟨{ dimension := search.dimension, querySignature := search.targets.querySignature
                  region, status := if unloaded then .unloadedBoundary else .mobilityBlocked
                  center, reason, uncertainty }, none⟩] }
        | .arrived pos additional =>
            let (run, goesOn) := scanHere py body search pos additional run
            if goesOn then frontierLoop legs run else run

/-- `explore_for` from where the body stands. -/
def exploreFor (origin : Position) (legs : List Leg) (log : List Call) : Run :=
  let (run, goesOn) := scanHere py body search origin [] ⟨log, [], []⟩
  if goesOn then frontierLoop py body search legs run else run

end

/-! ## What the paging comes to -/

def pageAnswers (calls : List Call) : List PerceptionResult :=
  (calls.filter (·.request.scope = "findBlocks")).map (·.answer)

def entityAnswers (calls : List Call) : List PerceptionResult :=
  (calls.filter (·.request.scope = "nearbyEntities")).map (·.answer)

@[simp] theorem pageAnswers_nil : pageAnswers [] = [] := rfl

@[simp] theorem entityAnswers_nil : entityAnswers [] = [] := rfl

theorem pageAnswers_append (calls more : List Call) :
    pageAnswers (calls ++ more) = pageAnswers calls ++ pageAnswers more := by
  simp [pageAnswers]

theorem entityAnswers_append (calls more : List Call) :
    entityAnswers (calls ++ more) = entityAnswers calls ++ entityAnswers more := by
  simp [entityAnswers]

section

variable (py : Python)

/-- An answer that lists something of the types. -/
def holds (types : List String) (value : Option Json) : Bool :=
  ((listed value).getD []).any (ofTypes py types)

def holdsBlock (targets : ExplorationTargets) (answer : PerceptionResult) : Bool :=
  holds py targets.blocks (answer.data.get? "blocks")

def holdsEntity (targets : ExplorationTargets) (answer : PerceptionResult) : Bool :=
  holds py targets.entities (answer.data.get? "entities")

/-- A page after which the paging goes on. -/
def Continues (answer : PerceptionResult) : Prop :=
  answer.ok = true ∧ answer.complete = false ∧ perceptionNextCursor answer ≠ none

/-- What the last page was, for each end of the paging. -/
def EndsWith (how : PagesEnd) (last : PerceptionResult) : Prop :=
  match how with
  | .complete => last.complete = true
  | .unloadedBoundary => last.complete = false ∧ perceptionNextCursor last = none ∧
      perceptionHasUnloadedBoundary py last = true
  | .pageLimited => Continues last
  | _ => True

variable {py} {types : List String}

theorem matching_eq_nil_iff {normalized : JsonObject → Option JsonObject} {value : Option Json}
    {found : List JsonObject} (h : matching py types normalized value = some found) :
    found = [] ↔ holds py types value = false := by
  obtain ⟨items, hitems, hfound⟩ := Option.bind_eq_some_iff.mp h
  have hempty : found = [] ↔ items.filter (ofTypes py types) = [] := by
    cases hfilter : items.filter (ofTypes py types) with
    | nil =>
        rw [hfilter] at hfound
        simp [Option.some.inj hfound.symm]
    | cons item rest =>
        rw [hfilter, List.mapM_cons] at hfound
        obtain ⟨a, -, hrest⟩ := Option.bind_eq_some_iff.mp hfound
        obtain ⟨as, -, hcons⟩ := Option.bind_eq_some_iff.mp hrest
        simp [← Option.some.inj hcons]
  rw [hempty, holds, hitems, Option.getD_some, List.filter_eq_nil_iff, List.any_eq_false]

theorem perceptionTerminal_eq_none {answer : PerceptionResult} :
    perceptionTerminal py answer = none ↔ answer.ok = true := by
  unfold perceptionTerminal
  cases answer.ok
  · simp only [Bool.false_eq_true, if_false, iff_false]
    split_ifs <;> simp
  · simp

variable {body : Body} {targets : ExplorationTargets} {scanRadius : Nat} {stopOnMatch : Bool}

/-- A read that is not terminal: its pages, the last of which says how it
ended. -/
structure PagesRead (py : Python) (targets : ExplorationTargets) (stopOnMatch : Bool) (left : Nat)
    (before : List JsonObject) (read : BlockRead) (calls : List Call) : Prop where
  entities : entityAnswers calls = []
  pages : ∃ first last, pageAnswers calls = first ++ [last] ∧ (∀ answer ∈ first, Continues answer) ∧
    last.ok = true ∧ EndsWith py read.how last
  empty : read.blocks = [] ↔ before = [] ∧ ∀ answer ∈ pageAnswers calls, holdsBlock py targets answer = false
  matched : read.how = .matched ↔ stopOnMatch = true ∧ read.blocks ≠ []
  length : (pageAnswers calls).length ≤ left
  limited : read.how = .pageLimited → (pageAnswers calls).length = left

theorem PagesRead.single {left : Nat} {before found blocks : List JsonObject} {request : Request}
    {answer : PerceptionResult} {uncertainty : List JsonObject} {how : PagesEnd}
    (hscope : request.scope = "findBlocks") (hok : answer.ok = true)
    (hfound : matching py targets.blocks (normalizedBlockMatch py) (answer.data.get? "blocks") =
      some found) (hblocks : blocks = before ++ found) (hend : EndsWith py how answer)
    (hmatched : how = .matched ↔ stopOnMatch = true ∧ blocks ≠ [])
    (hlimited : how = .pageLimited → left = 0) :
    PagesRead py targets stopOnMatch (left + 1) before ⟨blocks, uncertainty, how⟩
      [⟨request, answer⟩] := by
  have hpages : pageAnswers [⟨request, answer⟩] = [answer] := by simp [pageAnswers, hscope]
  constructor
  · simp [entityAnswers, hscope]
  · exact ⟨[], answer, hpages, by simp, hok, hend⟩
  · rw [hpages, hblocks, List.append_eq_nil_iff, matching_eq_nil_iff hfound]
    simp [holdsBlock]
  · exact hmatched
  · simp [hpages]
  · intro h
    simp [hpages, hlimited h]

theorem PagesRead.cons {left : Nat} {before found : List JsonObject} {request : Request}
    {answer : PerceptionResult} {read : BlockRead} {calls : List Call}
    (hscope : request.scope = "findBlocks") (hanswer : Continues answer)
    (hfound : matching py targets.blocks (normalizedBlockMatch py) (answer.data.get? "blocks") =
      some found) (h : PagesRead py targets stopOnMatch left (before ++ found) read calls) :
    PagesRead py targets stopOnMatch (left + 1) before read (⟨request, answer⟩ :: calls) := by
  have hpages : pageAnswers (⟨request, answer⟩ :: calls) = answer :: pageAnswers calls := by
    simp [pageAnswers, hscope]
  obtain ⟨first, last, hlast, hfirst, hok, hend⟩ := h.pages
  constructor
  · rw [← h.entities]
    simp [entityAnswers, hscope]
  · refine ⟨answer :: first, last, by rw [hpages, hlast]; rfl, ?_, hok, hend⟩
    exact List.forall_mem_cons.mpr ⟨hanswer, hfirst⟩
  · rw [h.empty, hpages, List.forall_mem_cons, List.append_eq_nil_iff, matching_eq_nil_iff hfound,
      and_assoc]
    rfl
  · exact h.matched
  · rw [hpages, List.length_cons]
    exact Nat.succ_le_succ h.length
  · intro hlimited
    rw [hpages, List.length_cons, h.limited hlimited]

/-- The paging ends at the first page that does not continue. -/
theorem readPages_spec {left : Nat} {cursor : Json} {seen : List String}
    {blocks uncertainty : List JsonObject} {log : List Call} {read : BlockRead} {calls : List Call}
    (h : readPages py body targets scanRadius stopOnMatch left cursor seen blocks uncertainty log =
      some (read, calls)) (hleft : left ≠ 0) (hread : ∀ reason, read.how ≠ .terminal reason) :
    PagesRead py targets stopOnMatch left blocks read calls := by
  induction left generalizing cursor seen blocks uncertainty log read calls with
  | zero => exact absurd rfl hleft
  | succ left ih =>
      simp only [readPages, Option.bind_eq_bind, Option.bind_eq_some_iff] at h
      obtain ⟨resume, -, h⟩ := h
      generalize hrequest : findBlocksRequest targets scanRadius resume = request at h
      have hscope : request.scope = "findBlocks" := by
        rw [← hrequest]
        rfl
      generalize body log request = answer at h
      cases hterminal : perceptionTerminal py answer with
      | some reason =>
          rw [hterminal] at h
          cases h
          exact absurd rfl (hread reason)
      | none =>
          have hok := perceptionTerminal_eq_none.mp hterminal
          rw [hterminal] at h
          obtain ⟨found, hfound, h⟩ := Option.bind_eq_some_iff.mp h
          by_cases hstop : (!(blocks ++ found).isEmpty && stopOnMatch) = true
          · rw [if_pos hstop] at h
            cases h
            obtain ⟨hne, hstop⟩ := Bool.and_eq_true_iff.mp hstop
            refine .single hscope hok hfound rfl trivial ?_ (by simp)
            simpa [hstop] using hne
          rw [if_neg hstop] at h
          by_cases hcomplete : answer.complete = true
          · rw [if_pos hcomplete] at h
            cases h
            refine .single hscope hok hfound rfl hcomplete ?_ (by simp)
            simpa [and_comm, imp_iff_not_or] using hstop
          · rw [if_neg hcomplete] at h
            have hincomplete : answer.complete = false := by simpa using hcomplete
            have hunmatched : ∀ how : PagesEnd, how ≠ .matched →
                (how = .matched ↔ stopOnMatch = true ∧ blocks ++ found ≠ []) := by
              intro how hhow
              simpa [hhow, and_comm, imp_iff_not_or] using hstop
            cases hcursor : perceptionNextCursor answer with
            | none =>
                rw [hcursor] at h
                dsimp only at h
                split_ifs at h with hboundary
                · cases h
                  exact .single hscope hok hfound rfl ⟨hincomplete, hcursor, hboundary⟩
                    (hunmatched _ (by simp)) (by simp)
                · cases h
                  exact absurd rfl (hread _)
            | some next =>
                have hcontinues : Continues answer := ⟨hok, hincomplete, by simp [hcursor]⟩
                rw [hcursor] at h
                dsimp only at h
                split_ifs at h with hseen hlast
                · cases h
                  exact absurd rfl (hread _)
                · cases h
                  exact .single hscope hok hfound rfl hcontinues (hunmatched _ (by simp))
                    fun _ => hlast
                · obtain ⟨⟨rest, more⟩, hrest, h⟩ := Option.bind_eq_some_iff.mp h
                  cases h
                  exact .cons hscope hcontinues hfound (ih hrest hlast hread)

/-! ## What a scan rests on -/

/-- The pages of a scan that is not terminal. -/
inductive BlocksRead (py : Python) (targets : ExplorationTargets) (stopOnMatch : Bool)
    (scan : ScanResult) (calls : List Call) : PagesEnd → Prop where
  | unasked (h : targets.blocks = []) (hpages : pageAnswers calls = []) (hblocks : scan.blocks = []) :
      BlocksRead py targets stopOnMatch scan calls .complete
  | asked (h : targets.blocks ≠ []) {pages : List Call} {uncertainty : List JsonObject}
      {how : PagesEnd} (hpages : pageAnswers calls = pageAnswers pages)
      (hread : PagesRead py targets stopOnMatch findBlockMaxPages [] ⟨scan.blocks, uncertainty, how⟩
        pages) : BlocksRead py targets stopOnMatch scan calls how

/-- The entities of a scan that is not terminal. -/
inductive EntitiesRead (py : Python) (targets : ExplorationTargets) (scan : ScanResult)
    (calls : List Call) : PagesEnd → Prop where
  | unasked {how : PagesEnd} (h : targets.entities = [] ∨ how = .matched)
      (hanswers : entityAnswers calls = []) (hentities : scan.entities = []) :
      EntitiesRead py targets scan calls how
  | asked {how : PagesEnd} (h : targets.entities ≠ []) (hhow : how ≠ .matched)
      (answer : PerceptionResult) (hanswers : entityAnswers calls = [answer])
      (hok : answer.ok = true)
      (hentities : scan.entities = [] ↔ holdsEntity py targets answer = false) :
      EntitiesRead py targets scan calls how

structure ScanRead (py : Python) (targets : ExplorationTargets) (stopOnMatch : Bool)
    (scan : ScanResult) (calls : List Call) (how : PagesEnd) : Prop where
  settled : ∀ reason, how ≠ .terminal reason
  blocks : BlocksRead py targets stopOnMatch scan calls how
  entities : EntitiesRead py targets scan calls how
  status : scan.coverageStatus = some .unloadedBoundary ∧ how = .unloadedBoundary ∨
    scan.coverageStatus = none ∧ how ≠ .unloadedBoundary
  limited : how = .pageLimited → targets.entities ≠ [] ∧ scan.found = true

theorem entityAnswers_single {request : Request} (h : request.scope = "nearbyEntities")
    (answer : PerceptionResult) :
    pageAnswers [⟨request, answer⟩] = [] ∧ entityAnswers [⟨request, answer⟩] = [answer] := by
  simp [pageAnswers, entityAnswers, h]

theorem readBlocks_spec {log pages : List Call} {read : BlockRead}
    (h : readBlocks py body targets scanRadius stopOnMatch log = some (read, pages))
    (hread : ∀ reason, read.how ≠ .terminal reason) {scan : ScanResult} {calls : List Call}
    (hblocks : scan.blocks = read.blocks) (hpages : pageAnswers calls = pageAnswers pages) :
    entityAnswers pages = [] ∧ BlocksRead py targets stopOnMatch scan calls read.how := by
  unfold readBlocks at h
  split at h
  · next hempty =>
      cases h
      exact ⟨rfl, .unasked (List.isEmpty_iff.mp hempty) hpages hblocks⟩
  · next hne =>
      have hpaged := readPages_spec h (by decide) hread
      have hscan : PagesRead py targets stopOnMatch findBlockMaxPages []
          ⟨scan.blocks, read.uncertainty, read.how⟩ pages := by
        rw [hblocks]
        exact hpaged
      exact ⟨hpaged.entities, .asked (by simpa using hne) hpages hscan⟩

theorem scanEntities_spec {log calls : List Call} {read : BlockRead} {scan : ScanResult}
    (h : scanEntities py body targets scanRadius read log = some (scan, calls))
    (hhow : read.how ≠ .matched) (hscan : scan.terminalReason = none) :
    scan.blocks = read.blocks ∧ pageAnswers calls = [] ∧ EntitiesRead py targets scan calls read.how ∧
      (scan.coverageStatus = some .unloadedBoundary ∧ read.how = .unloadedBoundary ∨
        scan.coverageStatus = none ∧ read.how ≠ .unloadedBoundary) ∧
      (read.how = .pageLimited → targets.entities ≠ [] ∧ scan.found = true) := by
  have hstatus : ∀ how : PagesEnd,
      (match how with
        | .unloadedBoundary => some CoverageStatus.unloadedBoundary
        | _ => none) = some .unloadedBoundary ∧ how = .unloadedBoundary ∨
      (match how with
        | .unloadedBoundary => some CoverageStatus.unloadedBoundary
        | _ => none) = none ∧ how ≠ .unloadedBoundary := by
    intro how
    cases how <;> simp
  unfold scanEntities at h
  dsimp only at h
  split at h
  · next hempty =>
      cases h
      refine ⟨rfl, rfl, .unasked (.inl (List.isEmpty_iff.mp hempty)) rfl rfl, hstatus _, ?_⟩
      intro hlimited
      simp [hlimited, hempty] at hscan
  · next hne =>
      have hentities : targets.entities ≠ [] := by simpa using hne
      generalize hrequest : nearbyEntitiesRequest targets scanRadius = request at h
      have hscope : request.scope = "nearbyEntities" := by
        rw [← hrequest]
        rfl
      obtain ⟨hpages, hanswers⟩ := entityAnswers_single hscope (body log request)
      generalize body log request = answer at h hpages hanswers
      cases hterminal : perceptionTerminal py answer with
      | some reason =>
          rw [hterminal] at h
          cases h
          cases hscan
      | none =>
          rw [hterminal] at h
          obtain ⟨entities, hfound, h⟩ := Option.bind_eq_some_iff.mp h
          cases h
          refine ⟨rfl, hpages, .asked hentities hhow answer hanswers
            (perceptionTerminal_eq_none.mp hterminal) (matching_eq_nil_iff hfound), hstatus _, ?_⟩
          intro hlimited
          refine ⟨hentities, ?_⟩
          simp only [hlimited] at hscan
          by_contra hnone
          simp [ScanResult.found] at hnone
          simp [hnone] at hscan

theorem scanTargets_spec {log calls : List Call} {scan : ScanResult}
    (h : scanTargets py body targets scanRadius stopOnMatch log = some (scan, calls))
    (hscan : scan.terminalReason = none) :
    ∃ how, ScanRead py targets stopOnMatch scan calls how := by
  obtain ⟨⟨read, pages⟩, hread, h⟩ := Option.bind_eq_some_iff.mp h
  dsimp only at h
  cases hhow : read.how with
  | matched =>
      rw [hhow] at h
      cases h
      obtain ⟨hanswers, hblocks⟩ := readBlocks_spec hread (by simp [hhow])
        (rfl : (ScanResult.mk read.blocks [] read.uncertainty none none).blocks = _) rfl
      exact ⟨read.how, by simp [hhow], hblocks, .unasked (.inr hhow) hanswers rfl,
        .inr ⟨rfl, by simp [hhow]⟩, by simp [hhow]⟩
  | terminal reason =>
      rw [hhow] at h
      cases h
      cases hscan
  | _ =>
      rw [hhow] at h
      obtain ⟨⟨scan', more⟩, hentities, h⟩ := Option.bind_eq_some_iff.mp h
      cases h
      obtain ⟨hblocks, hmore, hasked, hstatus, hlimited⟩ :=
        scanEntities_spec hentities (by simp [hhow]) hscan
      have hpages : pageAnswers (pages ++ more) = pageAnswers pages := by
        rw [pageAnswers_append, hmore, List.append_nil]
      obtain ⟨hanswers, hread⟩ := readBlocks_spec hread (by simp [hhow]) hblocks hpages
      have hcalls : entityAnswers (pages ++ more) = entityAnswers more := by
        rw [entityAnswers_append, hanswers, List.nil_append]
      refine ⟨read.how, by simp [hhow], hread, ?_, hstatus, hlimited⟩
      cases hasked with
      | unasked hno hanswers hnil => exact .unasked hno (hcalls.trans hanswers) hnil
      | asked hyes hne answer hanswers hok hiff =>
          exact .asked hyes hne answer (hcalls.trans hanswers) hok hiff

end

/-! ## Negative evidence -/

/-- The pages ended with a complete one, before the page limit. -/
def CompletePages (calls : List Call) : Prop :=
  (pageAnswers calls).length ≤ findBlockMaxPages ∧
    ∃ last, (pageAnswers calls).getLast? = some last ∧ last.ok = true ∧ last.complete = true

def CompleteEntities (calls : List Call) : Prop :=
  ∃ answer ∈ entityAnswers calls, answer.ok = true ∧ answer.complete = true

/-- What a record says it did not find was looked for to the end, in the
answers to these calls. -/
structure Evidenced (py : Python) (targets : ExplorationTargets) (calls : List Call)
    (event : CoverageEvent) : Prop where
  blocks : "no_matching_blocks" ∈ event.negativeEvidence → CompletePages calls ∧
    ∀ answer ∈ pageAnswers calls, holdsBlock py targets answer = false
  entities : "no_matching_entities" ∈ event.negativeEvidence → CompleteEntities calls ∧
    ∀ answer ∈ entityAnswers calls, holdsEntity py targets answer = false
  covered : event.status = .covered → (targets.blocks ≠ [] → CompletePages calls) ∧
    (targets.entities ≠ [] → CompleteEntities calls)

/-- Answers that none of the four misreadings is open to. -/
structure Conclusive (py : Python) (targets : ExplorationTargets) (firstMatch : Bool)
    (calls : List Call) : Prop where
  /-- pages without a target block end at an unloaded boundary -/
  boundary : ∀ answer ∈ pageAnswers calls, answer.complete = false →
    perceptionNextCursor answer = none → perceptionHasUnloadedBoundary py answer = true →
    ∃ page ∈ pageAnswers calls, holdsBlock py targets page = true
  /-- all the pages there may be are incomplete and without a target block,
  and there is a target entity -/
  limit : (pageAnswers calls).length = findBlockMaxPages →
    (∀ answer ∈ pageAnswers calls, answer.complete = false) →
    (∃ answer ∈ entityAnswers calls, holdsEntity py targets answer = true) →
    ∃ page ∈ pageAnswers calls, holdsBlock py targets page = true
  /-- a target block stops the scan before the entities are asked for -/
  unread : firstMatch = true → targets.entities ≠ [] →
    ∀ page ∈ pageAnswers calls, holdsBlock py targets page = false
  /-- entities that are not all of them have no target entity among them -/
  incomplete : ∀ answer ∈ entityAnswers calls, answer.complete = false →
    holdsEntity py targets answer = true

section

variable {py : Python} {targets : ExplorationTargets} {firstMatch : Bool} {scan : ScanResult}
  {calls : List Call} {how : PagesEnd}

theorem not_found_iff : scan.found = false ↔ scan.blocks = [] ∧ scan.entities = [] := by
  simp [ScanResult.found]

variable (targets scan) in
/-- The negative evidence and the status of a record. -/
theorem recordScan_says (dimension : String) (region : Region) (center : Position)
    (additional : List JsonObject) :
    ("no_matching_blocks" ∈
      (recordScan dimension targets region center scan additional).negativeEvidence ↔
        targets.blocks ≠ [] ∧ scan.blocks = []) ∧
    ("no_matching_entities" ∈
      (recordScan dimension targets region center scan additional).negativeEvidence ↔
        targets.entities ≠ [] ∧ scan.entities = []) ∧
    ((recordScan dimension targets region center scan additional).status = .covered ↔
      scan.blocks = [] ∧ scan.entities = [] ∧ scan.coverageStatus.getD .covered = .covered) := by
  refine ⟨?_, ?_, ?_⟩
  · simp only [recordScan, List.mem_append]
    split_ifs <;> simp_all
  · simp only [recordScan, List.mem_append]
    split_ifs <;> simp_all
  · rw [← and_assoc, ← not_found_iff]
    simp only [recordScan]
    cases scan.found <;> simp

/-- The pages of a read that was asked for. -/
theorem BlocksRead.pages (h : BlocksRead py targets firstMatch scan calls how)
    (hblocks : targets.blocks ≠ []) :
    (pageAnswers calls).length ≤ findBlockMaxPages ∧ ∃ first last,
      pageAnswers calls = first ++ [last] ∧ (∀ answer ∈ first, Continues answer) ∧ last.ok = true ∧
      EndsWith py how last := by
  cases h with
  | unasked hnil => exact absurd hnil hblocks
  | asked _ hpages hread =>
      rw [hpages]
      exact ⟨hread.length, hread.pages⟩

theorem BlocksRead.empty_iff (h : BlocksRead py targets firstMatch scan calls how) :
    scan.blocks = [] ↔ ∀ answer ∈ pageAnswers calls, holdsBlock py targets answer = false := by
  cases h with
  | unasked _ hpages hblocks => simp [hpages, hblocks]
  | asked _ hpages hread =>
      rw [hpages, hread.empty]
      simp

theorem BlocksRead.matched_iff (h : BlocksRead py targets firstMatch scan calls how) :
    how = .matched ↔ firstMatch = true ∧ scan.blocks ≠ [] := by
  cases h with
  | unasked _ _ hblocks => simp [hblocks]
  | asked _ _ hread => exact hread.matched

theorem BlocksRead.limited (h : BlocksRead py targets firstMatch scan calls how)
    (hlimited : how = .pageLimited) : (pageAnswers calls).length = findBlockMaxPages := by
  cases h with
  | unasked _ _ _ => cases hlimited
  | asked _ hpages hread =>
      rw [hpages]
      exact hread.limited hlimited

theorem BlocksRead.asked_of_mem (h : BlocksRead py targets firstMatch scan calls how)
    {answer : PerceptionResult} (hanswer : answer ∈ pageAnswers calls) : targets.blocks ≠ [] := by
  cases h with
  | unasked _ hpages _ =>
      rw [hpages] at hanswer
      cases hanswer
  | asked hne _ _ => exact hne

/-- A complete page is the last one. -/
theorem BlocksRead.last_of_complete (h : BlocksRead py targets firstMatch scan calls how)
    (hcomplete : CompletePages calls) {answer : PerceptionResult}
    (hanswer : answer ∈ pageAnswers calls) (hincomplete : answer.complete = false) :
    perceptionNextCursor answer ≠ none ∧ ∃ page ∈ pageAnswers calls, page.complete = true := by
  obtain ⟨-, first, last, hlast, hfirst, -⟩ := h.pages (h.asked_of_mem hanswer)
  obtain ⟨-, page, hpage, -, hdone⟩ := hcomplete
  refine ⟨?_, page, List.mem_of_getLast? hpage, hdone⟩
  rw [hlast, List.getLast?_concat] at hpage
  rw [hlast, List.mem_append, List.mem_singleton] at hanswer
  rcases hanswer with hanswer | rfl
  · exact (hfirst answer hanswer).2.2
  · rw [Option.some.inj hpage, hdone] at hincomplete
    cases hincomplete

variable (h : ScanRead py targets firstMatch scan calls how)

include h

theorem ScanRead.completePages (hconclusive : Conclusive py targets firstMatch calls)
    (hblocks : targets.blocks ≠ []) (hnone : scan.blocks = []) : CompletePages calls := by
  obtain ⟨hlength, first, last, hlast, hfirst, hok, hend⟩ := h.blocks.pages hblocks
  have hmem : last ∈ pageAnswers calls := by simp [hlast]
  have hempty := h.blocks.empty_iff.mp hnone
  have hno : ¬ ∃ page ∈ pageAnswers calls, holdsBlock py targets page = true := by
    rintro ⟨page, hpage, hholds⟩
    rw [hempty page hpage] at hholds
    cases hholds
  cases hhow : how with
  | complete =>
      rw [hhow] at hend
      exact ⟨hlength, last, by rw [hlast, List.getLast?_concat], hok, hend⟩
  | unloadedBoundary =>
      rw [hhow] at hend
      exact absurd (hconclusive.boundary last hmem hend.1 hend.2.1 hend.2.2) hno
  | pageLimited =>
      rw [hhow] at hend
      have hincomplete : ∀ answer ∈ pageAnswers calls, answer.complete = false := by
        intro answer hanswer
        rw [hlast, List.mem_append, List.mem_singleton] at hanswer
        rcases hanswer with hanswer | rfl
        · exact (hfirst answer hanswer).2.1
        · exact hend.2.1
      obtain ⟨hentities, hfound⟩ := h.limited hhow
      have hsome : scan.entities ≠ [] := by
        intro hnil
        rw [not_found_iff.mpr ⟨hnone, hnil⟩] at hfound
        cases hfound
      refine absurd (hconclusive.limit (h.blocks.limited hhow) hincomplete ?_) hno
      cases h.entities with
      | unasked _ _ hnil => exact absurd hnil hsome
      | asked _ _ answer hanswers _ hiff =>
          refine ⟨answer, by simp [hanswers], ?_⟩
          rw [Ne, hiff] at hsome
          simpa using hsome
  | matched => exact absurd hnone (h.blocks.matched_iff.mp hhow).2
  | terminal reason => exact absurd hhow (h.settled reason)

theorem ScanRead.completeEntities (hconclusive : Conclusive py targets firstMatch calls)
    (hentities : targets.entities ≠ []) (hnone : scan.entities = []) : CompleteEntities calls ∧
      ∀ answer ∈ entityAnswers calls, holdsEntity py targets answer = false := by
  cases h.entities with
  | unasked hunasked _ _ =>
      obtain ⟨hfirst, hblocks⟩ := h.blocks.matched_iff.mp (hunasked.resolve_left hentities)
      exact absurd (h.blocks.empty_iff.mpr (hconclusive.unread hfirst hentities)) hblocks
  | asked _ _ answer hanswers hok hiff =>
      have hnot := hiff.mp hnone
      have hmem : answer ∈ entityAnswers calls := by simp [hanswers]
      refine ⟨⟨answer, hmem, hok, ?_⟩, by simpa [hanswers] using hnot⟩
      by_contra hincomplete
      rw [hconclusive.incomplete answer hmem (by simpa using hincomplete)] at hnot
      cases hnot

/-- A record is evidenced by the answers of its scan just when these are
conclusive. -/
theorem ScanRead.evidenced_iff (dimension : String) (region : Region) (center : Position)
    (additional : List JsonObject) :
    Evidenced py targets calls (recordScan dimension targets region center scan additional) ↔
      Conclusive py targets firstMatch calls := by
  obtain ⟨hblocks, hentities, hcovered⟩ :=
    recordScan_says targets scan dimension region center additional
  constructor
  · intro hevidenced
    constructor
    · intro answer hanswer hincomplete hcursor _
      by_contra hno
      have hnone := h.blocks.empty_iff.mpr (by simpa using hno)
      obtain ⟨hcomplete, -⟩ :=
        hevidenced.blocks (hblocks.mpr ⟨h.blocks.asked_of_mem hanswer, hnone⟩)
      exact (h.blocks.last_of_complete hcomplete hanswer hincomplete).1 hcursor
    · intro hlength hincomplete _
      by_contra hno
      have hnone := h.blocks.empty_iff.mpr (by simpa using hno)
      obtain ⟨answer, hanswer⟩ := List.exists_mem_of_length_pos (l := pageAnswers calls)
        (by rw [hlength]; decide)
      obtain ⟨hcomplete, -⟩ :=
        hevidenced.blocks (hblocks.mpr ⟨h.blocks.asked_of_mem hanswer, hnone⟩)
      obtain ⟨-, page, hpage, hdone⟩ :=
        h.blocks.last_of_complete hcomplete hanswer (hincomplete answer hanswer)
      rw [hincomplete page hpage] at hdone
      cases hdone
    · intro hfirst hasked
      by_contra hsome
      have hmatched := h.blocks.matched_iff.mpr ⟨hfirst, fun hnil => hsome (h.blocks.empty_iff.mp hnil)⟩
      cases h.entities with
      | unasked _ hanswers hnil =>
          obtain ⟨⟨answer, hanswer, -⟩, -⟩ := hevidenced.entities (hentities.mpr ⟨hasked, hnil⟩)
          rw [hanswers] at hanswer
          cases hanswer
      | asked _ hnot => exact hnot hmatched
    · intro answer hanswer hincomplete
      cases h.entities with
      | unasked _ hanswers _ =>
          rw [hanswers] at hanswer
          cases hanswer
      | asked hasked _ other hanswers _ hiff =>
          by_contra hholds
          rw [hanswers, List.mem_singleton] at hanswer
          subst hanswer
          have hnone := hiff.mpr (by simpa using hholds)
          obtain ⟨⟨page, hpage, -, hdone⟩, -⟩ := hevidenced.entities (hentities.mpr ⟨hasked, hnone⟩)
          rw [hanswers, List.mem_singleton] at hpage
          rw [hpage, hincomplete] at hdone
          cases hdone
  · intro hconclusive
    constructor
    · intro hmem
      obtain ⟨hasked, hnone⟩ := hblocks.mp hmem
      exact ⟨h.completePages hconclusive hasked hnone, h.blocks.empty_iff.mp hnone⟩
    · intro hmem
      obtain ⟨hasked, hnone⟩ := hentities.mp hmem
      exact h.completeEntities hconclusive hasked hnone
    · intro hstatus
      obtain ⟨hnoBlocks, hnoEntities, -⟩ := hcovered.mp hstatus
      exact ⟨fun hasked => h.completePages hconclusive hasked hnoBlocks,
        fun hasked => (h.completeEntities hconclusive hasked hnoEntities).1⟩

omit h

/-! ## Records of a search -/

/-- A record is one of a scan that ended, or says nothing about targets. -/
def Rests (py : Python) (search : Search) (record : Record) : Prop :=
  match record.scan with
  | some calls => ∃ scan how region center additional,
      ScanRead py search.targets search.firstMatch scan calls how ∧
        record.event = recordScan search.dimension search.targets region center scan additional
  | none => record.event.negativeEvidence = [] ∧ record.event.status ≠ .covered

variable {body : Body} {search : Search}

omit firstMatch in
theorem scanHere_rests {pos : Position} {additional : List JsonObject} {run : Run}
    (hrun : ∀ record ∈ run.records, Rests py search record) :
    ∀ record ∈ (scanHere py body search pos additional run).1.records, Rests py search record := by
  unfold scanHere
  cases hscan : scanTargets py body search.targets search.scanRadius search.firstMatch run.log with
  | none => exact hrun
  | some ended =>
      obtain ⟨scan, calls⟩ := ended
      dsimp only
      cases hterminal : scan.terminalReason with
      | some reason =>
          intro record hrecord
          rcases List.mem_append.mp hrecord with hold | hnew
          · exact hrun record hold
          · split_ifs at hnew
            · rw [List.mem_singleton.mp hnew]
              exact ⟨rfl, by simp⟩
            · cases hnew
      | none =>
          intro record hrecord
          rcases List.mem_append.mp hrecord with hold | hnew
          · exact hrun record hold
          · rw [List.mem_singleton.mp hnew]
            obtain ⟨how, hread⟩ := scanTargets_spec hscan hterminal
            exact ⟨scan, how, regionKey pos, pos, additional, hread, rfl⟩

theorem frontierLoop_rests {legs : List Leg} {run : Run}
    (hrun : ∀ record ∈ run.records, Rests py search record) :
    ∀ record ∈ (frontierLoop py body search legs run).records, Rests py search record := by
  induction legs generalizing run with
  | nil => exact hrun
  | cons leg legs ih =>
      unfold frontierLoop
      split
      · exact hrun
      · cases leg with
        | failed region unloaded center reason uncertainty =>
            refine ih fun record hrecord => ?_
            rcases List.mem_append.mp hrecord with hold | hnew
            · exact hrun record hold
            · rw [List.mem_singleton.mp hnew]
              refine ⟨rfl, ?_⟩
              cases unloaded <;> simp
        | arrived pos additional =>
            have hnext : ∀ record ∈ (scanHere py body search pos additional run).1.records,
                Rests py search record := scanHere_rests hrun
            dsimp only
            generalize scanHere py body search pos additional run = ended at hnext ⊢
            obtain ⟨next, goesOn⟩ := ended
            cases goesOn with
            | true => exact ih hnext
            | false => exact hnext

/-- Every record of a search rests on its scan. -/
theorem exploreFor_rests (origin : Position) (legs : List Leg) (log : List Call) :
    ∀ record ∈ (exploreFor py body search origin legs log).records, Rests py search record := by
  have hfirst : ∀ record ∈ (scanHere py body search origin [] ⟨log, [], []⟩).1.records,
      Rests py search record := scanHere_rests (by simp)
  unfold exploreFor
  generalize scanHere py body search origin [] ⟨log, [], []⟩ = ended at hfirst ⊢
  obtain ⟨run, goesOn⟩ := ended
  cases goesOn with
  | true => exact frontierLoop_rests hfirst
  | false => exact hfirst

end

/-- In every search, what a record does not find and the cover it claims rest on
complete reads if and only if the answers of its scan are conclusive; records of
no scan claim neither. -/
theorem records_evidenced_iff (py : Python) (body : Body) (search : Search) (origin : Position)
    (legs : List Leg) (log : List Call) {record : Record}
    (h : record ∈ (exploreFor py body search origin legs log).records) :
    (∀ calls, record.scan = some calls →
      (Evidenced py search.targets calls record.event ↔
        Conclusive py search.targets search.firstMatch calls)) ∧
    (record.scan = none → record.event.negativeEvidence = [] ∧ record.event.status ≠ .covered) := by
  have hrests := exploreFor_rests origin legs log record h
  constructor
  · intro calls hcalls
    rw [Rests, hcalls] at hrests
    obtain ⟨scan, how, region, center, additional, hread, hevent⟩ := hrests
    rw [hevent]
    exact hread.evidenced_iff search.dimension region center additional
  · intro hnone
    rw [Rests, hnone] at hrests
    exact hrests

/-- An interpreter for answers that list nothing. -/
def plainPython : Python where
  str _ := ""
  casefold text := text
  isDigit _ := false
  int value := value.isInt?
  float _ := none

/-- A page that ends where chunks are not loaded. -/
def boundaryPage : PerceptionResult where
  ok := true
  complete := false
  data := [("blocks", .arr []), ("unloaded_chunk_count", .int 6)]

def dandelions : Search where
  targets := ⟨["dandelion"], [], "dandelion"⟩
  scanRadius := 12
  firstMatch := false
  maxRegions := 1
  dimension := "minecraft:overworld"
  settledBefore := []

/-- The only record of a search for dandelions, over that page. -/
theorem boundary_record :
    ∃ record ∈ (exploreFor plainPython (fun _ _ => boundaryPage) dandelions (0, 64, 0) [] []).records,
      ∃ calls, record.scan = some calls ∧
        (Evidenced plainPython dandelions.targets calls record.event ↔
          Conclusive plainPython dandelions.targets dandelions.firstMatch calls) := by
  refine ⟨_, List.mem_cons_self, _, rfl, ?_⟩
  exact (records_evidenced_iff plainPython (fun _ _ => boundaryPage) dandelions (0, 64, 0) [] []
    List.mem_cons_self).1 _ rfl

/-- It has no dandelions for evidence, from a page that is not complete. -/
theorem boundary_is_no_evidence :
    ¬ ∀ record ∈ (exploreFor plainPython (fun _ _ => boundaryPage) dandelions (0, 64, 0) [] []).records,
      ∀ calls, record.scan = some calls →
        Evidenced plainPython dandelions.targets calls record.event := by
  intro hall
  have hevidenced := hall _ List.mem_cons_self _ rfl
  obtain ⟨⟨-, last, hlast, -, hcomplete⟩, -⟩ := hevidenced.blocks (by decide)
  cases hlast
  cases hcomplete

end Exploration

end MineBot
