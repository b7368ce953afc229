import Mathlib
import MineBot.Dict
import MineBot.MemoryStore

/-!
# Searching memories

`search_memories` cuts a page from the candidates of its lanes: the full-text
lanes and the substring lane of a query, or all memories where there is none.
A lane gives as many candidates as the limit and the start of the page allow;
`_fuse_memory_lanes` merges them by their ranks.

The pages are followed by `nextStart`. They are cut from one list as long as
every lane gives all it has (`page_of_fits`), and are then that list in
pieces (`follows_results`).
-/

namespace MineBot

namespace MemoryStore

open Table

/-! ## Queries -/

/-- What Python makes of texts and floats. -/
structure SearchPython where
  casefold : String → String
  /-- `re.findall(r"[\w]+", text)` -/
  words : String → List String
  /-- `1.0 / (60.0 + rank)` -/
  weight : Nat → ℚ
  add : ℚ → ℚ → ℚ
  sub : ℚ → ℚ → ℚ
  /-- `math.dist` -/
  dist : List ℚ → List ℚ → ℚ
  round8 : ℚ → ℚ

/-- What SQLite finds: the `bm25` of a row that matches, and `LIKE`. -/
structure FullText where
  terms : String → MemoryRecord → Option ℚ
  trigrams : String → MemoryRecord → Option ℚ
  like : List String → MemoryRecord → Bool

/-- `dict.fromkeys` of texts. -/
def distinct (words : List String) : List String :=
  words.foldl (fun seen word => if word ∈ seen then seen else seen ++ [word]) []

def replaceText (old : Char) (new : String) (text : String) : String :=
  .ofList (text.toList.flatMap fun c => if c = old then new.toList else [c])

def doubleQuote : Char := Char.ofNat 34

/-- A token as a phrase of a full-text query. -/
def quotedToken (token : String) : String :=
  let mark := String.singleton doubleQuote
  mark ++ replaceText doubleQuote (mark ++ mark) token ++ mark

section

variable (py : SearchPython)

/-- The tokens of at least this length, the first of them. -/
def queryTokens (minLength limit : Nat) (query : String) : List String :=
  (distinct ((py.words (py.casefold query)).filter (minLength ≤ ·.length))).take limit

def memoryTermsQuery (query : String) : String :=
  " OR ".intercalate ((queryTokens py 1 24 query).map quotedToken)

def memoryTrigramQuery (query : String) : String :=
  " OR ".intercalate ((queryTokens py 3 16 query).map quotedToken)

def escapedToken (token : String) : String :=
  replaceText '_' "\\_" (replaceText '%' "\\%" (replaceText '\\' "\\\\" token))

/-- The patterns of `_memory_like_query`. -/
def memoryLikePatterns (query : String) : List String :=
  (queryTokens py 2 12 query).map fun token => "%" ++ escapedToken token ++ "%"

/-! ## Filters -/

structure MemoryFilters where
  kinds : List MemoryKind
  sources : List MemorySource
  subjectKey : String
  dimension : Option String
  center : Option (List ℚ)
  radius : Option ℚ
  region : Option (List ℚ)
deriving DecidableEq

structure MemoryQuery where
  query : String
  kinds : List MemoryKind
  sources : List MemorySource
  subjectKey : String
  dimension : Option String
  center : Option (List (Option ℚ))
  /-- the inner `none` is no finite number -/
  radius : Option (Option ℚ)
  region : Option (List (Option ℚ))

def validatedRadius : Option (Option ℚ) → Except MemoryError (Option ℚ)
  | none => .ok none
  | some none => .error (.invalid "radius must be a finite non-negative number")
  | some (some radius) =>
      if radius < 0 then .error (.invalid "radius must be a finite non-negative number")
      else .ok (some radius)

/-- The filters of a search, with `_validated_memory_search_geometry`. -/
def memoryFilters (q : MemoryQuery) : Except MemoryError MemoryFilters := do
  let center ← validatedPoint "center" q.center
  let region ← validatedRegion "region" q.region
  let radius ← validatedRadius q.radius
  if center.isNone ≠ radius.isNone then
    throw (.invalid "center and radius must be supplied together")
  if center.isSome ∧ region.isSome then
    throw (.invalid "search geometry must use center/radius or region, not both")
  return { kinds := q.kinds, sources := q.sources
           subjectKey := pyStrip (boundedText q.subjectKey 256)
           dimension := q.dimension.map fun dimension => pyStrip (boundedText dimension 128)
           center, radius, region }

def coordinate (xs : List ℚ) (i : Nat) : ℚ := xs.getD i 0

/-- A point of the box. -/
def inBox (low high point : List ℚ) : Bool :=
  [0, 1, 2].all fun i =>
    coordinate low i ≤ coordinate point i ∧ coordinate point i ≤ coordinate high i

/-- A region that meets the box. -/
def meetsBox (low high bounds : List ℚ) : Bool :=
  [0, 1, 2].all fun i =>
    coordinate low i ≤ coordinate bounds (i + 3) ∧ coordinate bounds i ≤ coordinate high i

def boxClause (low high : List ℚ) (record : MemoryRecord) : Bool :=
  record.point.any (inBox low high) || record.region.any (meetsBox low high)

/-- The box of `_memory_filter_sql`. -/
def inFilterBox (filters : MemoryFilters) (record : MemoryRecord) : Bool :=
  match filters.center, filters.radius, filters.region with
  | some center, some radius, _ =>
      boxClause (center.map (py.sub · radius)) (center.map (py.add · radius)) record
  | _, _, some region => boxClause (region.take 3) (region.drop 3) record
  | _, _, none => true

/-- `WHERE` of `_memory_filter_sql`. -/
def passesFilters (scopeKey : String) (filters : MemoryFilters) (record : MemoryRecord) : Bool :=
  record.scopeKey = scopeKey &&
  (filters.kinds.isEmpty || filters.kinds.contains record.kind) &&
  (filters.sources.isEmpty || filters.sources.contains record.source) &&
  (filters.subjectKey = "" || record.subjectKey = filters.subjectKey) &&
  (match filters.dimension with
    | some dimension => dimension = "" || record.dimension = some dimension
    | none => true) &&
  inFilterBox py filters record

def memoryDistance (record : MemoryRecord) (center : List ℚ) : Option ℚ :=
  match record.point, record.region with
  | some point, _ => some (py.dist point center)
  | none, some bounds => some (py.dist ([0, 1, 2].map fun i =>
      min (max (coordinate center i) (coordinate bounds i)) (coordinate bounds (i + 3))) center)
  | none, none => none

/-- `_memory_matches_geometry` -/
def matchesGeometry (filters : MemoryFilters) (record : MemoryRecord) : Bool :=
  match filters.center, filters.radius, filters.region with
  | some center, some radius, _ =>
      match memoryDistance py record center with
      | some distance => distance ≤ radius
      | none => false
  | _, _, some region =>
      match record.point with
      | some point => inBox (region.take 3) (region.drop 3) point
      | none => record.region.any (meetsBox (region.take 3) (region.drop 3))
  | _, _, none => true

/-! ## Lanes -/

/-- `ORDER BY e.memory_id` -/
def byId (records : List MemoryRecord) : List MemoryRecord :=
  records.mergeSort fun a b => decide (a.memoryId ≤ b.memoryId)

/-- The rows that match, `ORDER BY rank_score, e.memory_id`. -/
def byScore (score : MemoryRecord → Option ℚ) (records : List MemoryRecord) : List MemoryRecord :=
  ((records.filterMap fun record => (score record).map (·, record)).mergeSort fun a b =>
    decide (a.1 < b.1 ∨ a.1 = b.1 ∧ a.2.memoryId ≤ b.2.memoryId)).map Prod.snd

/-- The rows of each lane, in the order of its query. -/
def laneRows (fts : FullText) (rows : List MemoryRecord) (scopeKey : String)
    (filters : MemoryFilters) (query : String) : List (String × List MemoryRecord) :=
  let passing := rows.filter (passesFilters py scopeKey filters)
  if query = "" then [("structured", byId passing)]
  else
    let terms := memoryTermsQuery py query
    let trigrams := memoryTrigramQuery py query
    let patterns := memoryLikePatterns py query
    (if terms = "" then [] else [("terms", byScore (fts.terms terms) passing)]) ++
    (if trigrams = "" then [] else [("trigram", byScore (fts.trigrams trigrams) passing)]) ++
    (if patterns = [] then [] else [("substring", byId (passing.filter (fts.like patterns)))])

def candidateLimit (start limit : Nat) : Nat := min 500 (max 100 (start + limit * 8))

/-! ## Fusing the lanes -/

structure FusedItem where
  record : MemoryRecord
  score : ℚ
  lanes : List String

/-- The order of the structured lane. -/
def structuredOrder (a b : MemoryRecord) : Bool :=
  decide (b.source.rank < a.source.rank ∨ a.source.rank = b.source.rank ∧
    (py.casefold a.title < py.casefold b.title ∨
      py.casefold a.title = py.casefold b.title ∧ a.memoryId ≤ b.memoryId))

def rankedRecords (lane : String × List MemoryRecord) : List (MemoryRecord × Nat) :=
  (if lane.1 = "structured" then lane.2.mergeSort (structuredOrder py) else lane.2).zipIdx 1

/-- What a lane says of a record adds to its item. -/
def addRanked (filters : MemoryFilters) (fused : Dict String FusedItem)
    (entry : String × MemoryRecord × Nat) : Dict String FusedItem :=
  let (lane, record, rank) := entry
  if matchesGeometry py filters record then
    let item := (fused.get? record.memoryId).getD ⟨record, 0, []⟩
    fused.set record.memoryId
      { item with score := py.add item.score (py.weight rank), lanes := item.lanes ++ [lane] }
  else fused

def laneEntries (lanes : List (String × List MemoryRecord)) : List (String × MemoryRecord × Nat) :=
  lanes.flatMap fun lane => (rankedRecords py lane).map (lane.1, ·)

def fused (filters : MemoryFilters) (lanes : List (String × List MemoryRecord)) :
    Dict String FusedItem := (laneEntries py lanes).foldl (addRanked py filters) []

/-- The distance of an item, where there is a center. -/
def itemDistance (filters : MemoryFilters) (item : FusedItem) : ℚ :=
  match filters.center with
  | some center => (memoryDistance py item.record center).getD 0
  | none => 0

def fusedOrder (filters : MemoryFilters) (a b : FusedItem) : Bool :=
  let distance := itemDistance py filters
  decide (b.score < a.score ∨ a.score = b.score ∧
    (b.record.source.rank < a.record.source.rank ∨ a.record.source.rank = b.record.source.rank ∧
      (distance a < distance b ∨ distance a = distance b ∧ a.record.memoryId ≤ b.record.memoryId)))

structure MemoryHit where
  record : MemoryRecord
  retrievalScore : ℚ
  matchLanes : List String
  distance : Option ℚ

def memoryHit (filters : MemoryFilters) (item : FusedItem) : MemoryHit where
  record := item.record
  retrievalScore := py.round8 item.score
  matchLanes := item.lanes
  distance := filters.center.bind (memoryDistance py item.record)

/-- `_fuse_memory_lanes` -/
def fuseMemoryLanes (filters : MemoryFilters) (lanes : List (String × List MemoryRecord)) :
    List MemoryHit :=
  (((fused py filters lanes).map Prod.snd).mergeSort (fusedOrder py filters)).map
    (memoryHit py filters)

/-! ## Pages -/

structure MemoryPage where
  query : String
  filters : MemoryFilters
  start : Nat
  limit : Nat
  candidateCount : Nat
  results : List MemoryHit
  nextStart : Option Nat
  complete : Bool
  candidateTruncated : Bool
  lanes : List (String × Nat)

/-- The page of a search whose lanes are these, at this start. -/
def memoryPage (query : String) (filters : MemoryFilters) (lanes : List (String × List MemoryRecord))
    (limit start : Nat) : MemoryPage :=
  let cut := lanes.map fun lane => (lane.1, lane.2.take (candidateLimit start limit))
  let hits := fuseMemoryLanes py filters cut
  let page := (hits.drop start).take limit
  let nextStart := if start + page.length < hits.length then some (start + page.length) else none
  let truncated := lanes.any fun lane => decide (candidateLimit start limit < lane.2.length)
  { query, filters, start, limit, candidateCount := hits.length, results := page, nextStart
    complete := nextStart.isNone && !truncated, candidateTruncated := truncated
    lanes := cut.map fun lane => (lane.1, lane.2.length) }

def queryText (q : MemoryQuery) : String := pyStrip (boundedText q.query 500)

/-- `search_memories` -/
def searchMemories (fts : FullText) (rows : List MemoryRecord) (scopeKey : String) (q : MemoryQuery)
    (start limit : Int) : Except MemoryError MemoryPage := do
  let filters ← memoryFilters q
  return memoryPage py (queryText q) filters (laneRows py fts rows scopeKey filters (queryText q))
    (max 1 (min 50 limit)).toNat (max 0 start).toNat

end

/-- The pages that are read from a start by following `nextStart`. -/
inductive Follows (search : Nat → Except MemoryError MemoryPage) : Nat → List MemoryPage → Prop
  | last {start : Nat} {page : MemoryPage} (h : search start = .ok page)
      (hnone : page.nextStart = none) : Follows search start [page]
  | next {start n : Nat} {page : MemoryPage} {pages : List MemoryPage} (h : search start = .ok page)
      (hsome : page.nextStart = some n) (hrest : Follows search n pages) :
      Follows search start (page :: pages)

/-- The memories of some pages. -/
def visited (pages : List MemoryPage) : List String :=
  pages.flatMap fun page => page.results.map (·.record.memoryId)

/-! ## What is fused -/

section

variable {py : SearchPython} {filters : MemoryFilters}

/-- Every item stands under the id of its record. -/
def WellKeyed (items : Dict String FusedItem) : Prop :=
  (items.map Prod.fst).Nodup ∧ ∀ e ∈ items, e.2.record.memoryId = e.1

theorem WellKeyed.addRanked {items : Dict String FusedItem} (h : WellKeyed items)
    (entry : String × MemoryRecord × Nat) : WellKeyed (addRanked py filters items entry) := by
  obtain ⟨lane, record, rank⟩ := entry
  rw [MemoryStore.addRanked]
  split
  · refine ⟨Dict.nodup_set h.1 _ _, fun e he => ?_⟩
    rcases Dict.mem_of_mem_set he with rfl | he
    · cases hget : items.get? record.memoryId with
      | none => rfl
      | some item => exact h.2 (_, item) (Dict.mem_of_get? hget)
    · exact h.2 e he
  · exact h

theorem mem_keys_addRanked {items : Dict String FusedItem} {entry : String × MemoryRecord × Nat}
    {id : String} : id ∈ (addRanked py filters items entry).map Prod.fst ↔
      id ∈ items.map Prod.fst ∨
        matchesGeometry py filters entry.2.1 = true ∧ entry.2.1.memoryId = id := by
  obtain ⟨lane, record, rank⟩ := entry
  rw [addRanked]
  split
  · next hmatches =>
      rw [Dict.keys_set]
      split
      · next hmem =>
          refine ⟨.inl, ?_⟩
          rintro (h | ⟨-, rfl⟩)
          · exact h
          · exact hmem
      · simp only [List.mem_append, List.mem_singleton, hmatches, true_and, eq_comm]
  · next hmatches => simp only [hmatches, Bool.false_eq_true, false_and, or_false]

theorem wellKeyed_fused (lanes : List (String × List MemoryRecord)) :
    WellKeyed (fused py filters lanes) := by
  rw [fused]
  generalize laneEntries py lanes = entries
  suffices ∀ items, WellKeyed items → WellKeyed (entries.foldl (addRanked py filters) items) from
    this [] ⟨List.nodup_nil, by simp⟩
  induction entries with
  | nil => exact fun _ h => h
  | cons entry entries ih => exact fun items h => ih _ (h.addRanked entry)

theorem mem_laneEntries {lanes : List (String × List MemoryRecord)} {record : MemoryRecord} :
    (∃ entry ∈ laneEntries py lanes, entry.2.1 = record) ↔ ∃ lane ∈ lanes, record ∈ lane.2 := by
  have hranked : ∀ lane, (∃ ranked ∈ rankedRecords py lane, ranked.1 = record) ↔
      record ∈ lane.2 := by
    intro lane
    rw [← List.mem_map, rankedRecords, List.zipIdx_map_fst]
    split
    · exact List.mem_mergeSort
    · rfl
  simp only [laneEntries, List.mem_flatMap, List.mem_map]
  constructor
  · rintro ⟨entry, ⟨lane, hlane, ranked, hmem, rfl⟩, rfl⟩
    exact ⟨lane, hlane, (hranked lane).mp ⟨ranked, hmem, rfl⟩⟩
  · rintro ⟨lane, hlane, hmem⟩
    obtain ⟨ranked, hin, rfl⟩ := (hranked lane).mpr hmem
    exact ⟨_, ⟨lane, hlane, ranked, hin, rfl⟩, rfl⟩

/-- The ids of the items are those of the records of the lanes that pass the
geometry. -/
theorem mem_keys_fused {lanes : List (String × List MemoryRecord)} {id : String} :
    id ∈ (fused py filters lanes).map Prod.fst ↔
      ∃ lane ∈ lanes, ∃ record ∈ lane.2, matchesGeometry py filters record = true ∧
        record.memoryId = id := by
  have hfold : ∀ (entries : List (String × MemoryRecord × Nat)) items,
      id ∈ (entries.foldl (addRanked py filters) items).map Prod.fst ↔
        id ∈ items.map Prod.fst ∨ ∃ entry ∈ entries,
          matchesGeometry py filters entry.2.1 = true ∧ entry.2.1.memoryId = id := by
    intro entries
    induction entries with
    | nil => simp
    | cons entry entries ih =>
        intro items
        rw [List.foldl_cons, ih, mem_keys_addRanked, or_assoc, List.exists_mem_cons_iff]
  rw [fused, hfold]
  simp only [List.map_nil, List.not_mem_nil, false_or]
  constructor
  · rintro ⟨entry, hmem, hmatches⟩
    obtain ⟨lane, hlane, hrecord⟩ := mem_laneEntries.mp ⟨entry, hmem, rfl⟩
    exact ⟨lane, hlane, _, hrecord, hmatches⟩
  · rintro ⟨lane, hlane, record, hrecord, hmatches⟩
    obtain ⟨entry, hmem, rfl⟩ := mem_laneEntries.mpr ⟨lane, hlane, hrecord⟩
    exact ⟨entry, hmem, hmatches⟩

def hitIds (hits : List MemoryHit) : List String := hits.map (·.record.memoryId)

/-- Fusing sorts the items and keeps each. -/
theorem hitIds_perm (lanes : List (String × List MemoryRecord)) :
    (hitIds (fuseMemoryLanes py filters lanes)).Perm ((fused py filters lanes).map Prod.fst) := by
  have hkeys : ((fused py filters lanes).map Prod.snd).map (·.record.memoryId) =
      (fused py filters lanes).map Prod.fst := by
    rw [List.map_map]
    exact List.map_congr_left (wellKeyed_fused lanes).2
  rw [hitIds, fuseMemoryLanes, List.map_map, ← hkeys]
  exact (List.mergeSort_perm _ _).map _

theorem nodup_hitIds (lanes : List (String × List MemoryRecord)) :
    (hitIds (fuseMemoryLanes py filters lanes)).Nodup :=
  (hitIds_perm lanes).nodup_iff.mpr (wellKeyed_fused lanes).1

theorem mem_hitIds {lanes : List (String × List MemoryRecord)} {id : String} :
    id ∈ hitIds (fuseMemoryLanes py filters lanes) ↔
      ∃ lane ∈ lanes, ∃ record ∈ lane.2, matchesGeometry py filters record = true ∧
        record.memoryId = id := (hitIds_perm lanes).mem_iff.trans mem_keys_fused

/-! ## Following the pages -/

variable {query : String} {lanes : List (String × List MemoryRecord)} {limit start : Nat}

/-- The lanes as a page cuts them. -/
def cutLanes (lanes : List (String × List MemoryRecord)) (limit start : Nat) :
    List (String × List MemoryRecord) :=
  lanes.map fun lane => (lane.1, lane.2.take (candidateLimit start limit))

theorem memoryPage_results : (memoryPage py query filters lanes limit start).results =
    ((fuseMemoryLanes py filters (cutLanes lanes limit start)).drop start).take limit := rfl

/-- There is a next page when hits are left, and it starts after the page. -/
theorem nextStart_eq_some {n : Nat}
    (h : (memoryPage py query filters lanes limit start).nextStart = some n) :
    n = start + min limit
        ((fuseMemoryLanes py filters (cutLanes lanes limit start)).length - start) ∧
      n < (fuseMemoryLanes py filters (cutLanes lanes limit start)).length := by
  simp only [memoryPage, List.length_take, List.length_drop] at h
  split at h
  · next hlt => exact Option.some.inj h ▸ ⟨rfl, hlt⟩
  · cases h

theorem nextStart_eq_none (h : (memoryPage py query filters lanes limit start).nextStart = none) :
    (fuseMemoryLanes py filters (cutLanes lanes limit start)).length ≤ start + min limit
        ((fuseMemoryLanes py filters (cutLanes lanes limit start)).length - start) := by
  simp only [memoryPage, List.length_take, List.length_drop] at h
  split at h
  · cases h
  · next hle => exact not_lt.mp hle

theorem complete_iff : (memoryPage py query filters lanes limit start).complete = true ↔
    (memoryPage py query filters lanes limit start).nextStart = none ∧
      (memoryPage py query filters lanes limit start).candidateTruncated = false := by
  simp [memoryPage]

variable (py filters lanes limit start) in
/-- No page has more hits than the lanes have rows. -/
theorem length_hits_le : (fuseMemoryLanes py filters (cutLanes lanes limit start)).length ≤
    (lanes.flatMap fun lane => lane.2.map (·.memoryId)).length := by
  rw [← List.length_map (·.record.memoryId)]
  refine ((nodup_hitIds _).subperm fun id hid => ?_).length_le
  obtain ⟨lane, hlane, record, hrecord, -, rfl⟩ := mem_hitIds.mp hid
  obtain ⟨lane, hlane', rfl⟩ := List.mem_map.mp hlane
  exact List.mem_flatMap.mpr ⟨lane, hlane', List.mem_map_of_mem (List.mem_of_mem_take hrecord)⟩

/-- The pages come to an end: the start of the next one is nearer to the
number of rows. -/
theorem follows_exists (hlimit : 0 < limit) {search : Nat → Except MemoryError MemoryPage}
    (hsearch : ∀ start, search start = .ok (memoryPage py query filters lanes limit start))
    (start : Nat) : ∃ pages, Follows search start pages := by
  induction h : (lanes.flatMap fun lane => lane.2.map (·.memoryId)).length - start
    using Nat.strong_induction_on generalizing start with
  | _ measure ih =>
      subst h
      cases hnext : (memoryPage py query filters lanes limit start).nextStart with
      | none => exact ⟨_, .last (hsearch start) hnext⟩
      | some n =>
          obtain ⟨hn, hlt⟩ := nextStart_eq_some hnext
          have hle := length_hits_le py filters lanes limit start
          obtain ⟨pages, hpages⟩ := ih _ (by omega) n rfl
          exact ⟨_, .next (hsearch start) hnext hpages⟩

/-- Pages cut from one list are that list in pieces. -/
theorem follows_results {search : Nat → Except MemoryError MemoryPage} {pages : List MemoryPage}
    {hits : List MemoryHit} (first : Nat)
    (hsearch : ∀ start, first ≤ start →
      search start = .ok (memoryPage py query filters lanes limit start) ∧
        fuseMemoryLanes py filters (cutLanes lanes limit start) = hits)
    (hstart : first ≤ start) (h : Follows search start pages) :
    pages.flatMap (·.results) = hits.drop start := by
  induction h with
  | @last start page hpage hnone =>
      obtain ⟨hok, rfl⟩ := hsearch start hstart
      obtain rfl := Except.ok.inj (hpage.symm.trans hok)
      have hle := nextStart_eq_none hnone
      rw [List.flatMap_singleton, memoryPage_results, List.take_of_length_le]
      rw [List.length_drop]
      omega
  | @next start n page pages hpage hsome hrest ih =>
      obtain ⟨hok, rfl⟩ := hsearch start hstart
      obtain rfl := Except.ok.inj (hpage.symm.trans hok)
      obtain ⟨hn, hlt⟩ := nextStart_eq_some hsome
      have hlimit : n = start + limit := by omega
      rw [List.flatMap_cons, ih (by omega), memoryPage_results, hlimit, ← List.drop_drop,
        List.take_append_drop]

theorem Follows.exists_search {search : Nat → Except MemoryError MemoryPage}
    {pages : List MemoryPage} (h : Follows search start pages) {page : MemoryPage}
    (hpage : page ∈ pages) : ∃ start, search start = .ok page := by
  induction h with
  | @last start page hok => exact ⟨start, List.mem_singleton.mp hpage ▸ hok⟩
  | @next start n page pages hok _ _ ih =>
      rcases List.mem_cons.mp hpage with rfl | hpage
      · exact ⟨start, hok⟩
      · exact ih hpage

/-- A page whose next one is asked for later ends a search. -/
theorem Follows.exists_last {search : Nat → Except MemoryError MemoryPage} {pages : List MemoryPage}
    (h : Follows search start pages)
    (hmono : ∀ s page n, search s = .ok page → page.nextStart = some n → s ≤ n) :
    ∃ s page, start ≤ s ∧ search s = .ok page ∧ page.nextStart = none ∧
      pages.getLast? = some page := by
  induction h with
  | @last start page hpage hnone => exact ⟨start, page, le_rfl, hpage, hnone, rfl⟩
  | @next start n page pages hpage hsome hrest ih =>
      obtain ⟨s, last, hs, hlast, hnone, hget⟩ := ih
      refine ⟨s, last, (hmono start page n hpage hsome).trans hs, hlast, hnone, ?_⟩
      rw [List.getLast?_cons, hget]
      rfl

/-! ## A search without a text -/

/-- `structuredOrder` compares these. -/
def structuredKey (py : SearchPython) (record : MemoryRecord) : ℤ ×ₗ String ×ₗ String :=
  toLex (-(record.source.rank : ℤ), toLex (py.casefold record.title, record.memoryId))

theorem structuredOrder_iff {a b : MemoryRecord} :
    structuredOrder py a b = true ↔ structuredKey py a ≤ structuredKey py b := by
  simp only [structuredOrder, structuredKey, decide_eq_true_eq, Prod.Lex.toLex_le_toLex,
    neg_lt_neg_iff, Nat.cast_lt, neg_inj, Nat.cast_inj]

theorem mergeSort_structuredOrder {records sorted : List MemoryRecord} (hperm : sorted.Perm records)
    (hids : (records.map (·.memoryId)).Nodup)
    (hsorted : sorted.Pairwise fun a b => structuredOrder py a b = true) :
    records.mergeSort (structuredOrder py) = sorted := by
  refine (List.Perm.eq_of_pairwise (fun a b ha hb hab hba => ?_) hsorted
    (List.pairwise_mergeSort (fun a b c hab hbc => ?_) (fun a b => ?_) records)
    (hperm.trans (List.mergeSort_perm _ _).symm)).symm
  · rw [structuredOrder_iff] at hab hba
    have hkey := le_antisymm hab hba
    refine List.inj_on_of_nodup_map hids (hperm.subset ha) (List.mem_mergeSort.mp hb) ?_
    exact congrArg (fun key => (ofLex (ofLex key).2).2) hkey
  · rw [structuredOrder_iff] at *
    exact hab.trans hbc
  · rw [Bool.or_eq_true, structuredOrder_iff, structuredOrder_iff]
    exact le_total _ _

/-- The item of a record of the structured lane. -/
def structuredItem (py : SearchPython) (ranked : MemoryRecord × Nat) : FusedItem :=
  ⟨ranked.1, py.add 0 (py.weight ranked.2), ["structured"]⟩

theorem foldl_structured (hcenter : filters.center = none) (hregion : filters.region = none)
    (ranked : List (MemoryRecord × Nat)) (items : Dict String FusedItem)
    (hids : (items.map Prod.fst ++ ranked.map (·.1.memoryId)).Nodup) :
    (ranked.map ("structured", ·)).foldl (addRanked py filters) items =
      items ++ ranked.map fun ranked => (ranked.1.memoryId, structuredItem py ranked) := by
  induction ranked generalizing items with
  | nil => simp
  | cons first ranked ih =>
      have hmatches : matchesGeometry py filters first.1 = true := by
        simp only [matchesGeometry, hcenter, hregion]
      have hnew : items.get? first.1.memoryId = none := by
        refine Dict.get?_eq_none fun hmem => ?_
        exact (List.nodup_append.mp hids).2.2 _ hmem _ (by simp) rfl
      have hstep : addRanked py filters items ("structured", first) =
          items ++ [(first.1.memoryId, structuredItem py first)] := by
        simp only [addRanked, hmatches, if_true, hnew, Option.getD_none]
        exact Dict.set_of_get?_none hnew
      rw [List.map_cons, List.foldl_cons, hstep, ih _ (by simpa using hids), List.append_assoc]
      rfl

/-- Without geometry the structured lane is shown in its order. -/
theorem hitIds_structured (hadd : ∀ score, py.add 0 score = score) (hweight : StrictAnti py.weight)
    (hcenter : filters.center = none) (hregion : filters.region = none)
    {records : List MemoryRecord} (hids : (records.map (·.memoryId)).Nodup) :
    hitIds (fuseMemoryLanes py filters [("structured", records)]) =
      (records.mergeSort (structuredOrder py)).map (·.memoryId) := by
  generalize hranked : (records.mergeSort (structuredOrder py)).zipIdx 1 = ranked
  have hfirst : ranked.map Prod.fst = records.mergeSort (structuredOrder py) := by
    rw [← hranked, List.zipIdx_map_fst]
  have hrankedIds : (ranked.map (·.1.memoryId)).Nodup := by
    have hperm := (List.mergeSort_perm records (structuredOrder py)).map (·.memoryId)
    rw [← hfirst, List.map_map] at hperm
    exact hperm.nodup_iff.mpr hids
  have hfused : fused py filters [("structured", records)] =
      ranked.map fun ranked => (ranked.1.memoryId, structuredItem py ranked) := by
    simp only [fused, laneEntries, List.flatMap_singleton, rankedRecords, if_true, hranked]
    exact foldl_structured hcenter hregion ranked [] (by simpa using hrankedIds)
  have hsorted : (ranked.map (structuredItem py)).mergeSort (fusedOrder py filters) =
      ranked.map (structuredItem py) := by
    refine List.mergeSort_of_pairwise (List.pairwise_map.mpr ?_)
    have hrising : (ranked.map Prod.snd).Pairwise (· < ·) := by
      rw [← hranked, List.zipIdx_map_snd]
      exact List.pairwise_lt_range'
    refine (List.pairwise_map.mp hrising).imp fun hlt => ?_
    simp only [fusedOrder, structuredItem, hadd, hweight hlt, true_or, decide_true]
  rw [hitIds, fuseMemoryLanes, hfused, List.map_map, ← hfirst]
  simp only [Function.comp_def, hsorted, List.map_map]
  rfl

/-! ## A table of notes -/

/-- Floats as rationals, and texts that are in lower case. -/
def lowerCasePython : SearchPython where
  casefold := id
  words _ := []
  weight rank := 1 / (60 + rank)
  add := (· + ·)
  sub := (· - ·)
  dist _ _ := 0
  round8 := id

def noFullText : FullText := ⟨fun _ _ => none, fun _ _ => none, fun _ _ => false⟩

def everything : MemoryQuery := ⟨"", [], [], "", none, none, none, none⟩

def anyFilters : MemoryFilters := ⟨[], [], "", none, none, none, none⟩

theorem memoryFilters_everything : memoryFilters everything = .ok anyFilters := rfl

def digitChar (n : Nat) : Char := Char.ofNat (48 + n % 10)

def noteId (n : Nat) : String :=
  "memory-00000000000000000000000000000" ++
    .ofList [digitChar (n / 100), digitChar (n / 10), digitChar n]

/-- A memory of the scope that the agent inferred. -/
def note (n : Nat) : MemoryRecord where
  memoryId := noteId n
  scopeKey := "server:world:Bot1"
  revision := 1
  kind := .reflective
  source := .selfInferred
  subjectKey := ""
  title := "note"
  content := "trees grow back slowly"
  evidenceRef := ""
  dimension := none
  point := none
  region := none
  createdAt := 0
  updatedAt := 0
  evidenceHandles := []
  supersededBy := none

/-! ## Searches whose lanes are whole -/

/-- A lane that fits is cut nowhere. -/
theorem cutLanes_of_fits (hlimit : limit ≤ 50)
    (hfits : ∀ lane ∈ lanes, lane.2.length ≤ max 100 (limit * 8)) :
    cutLanes lanes limit start = lanes := by
  have hcut : ∀ lane ∈ lanes, (lane.1, lane.2.take (candidateLimit start limit)) = lane := by
    intro lane hlane
    have hle := hfits lane hlane
    rw [List.take_of_length_le]
    simp only [candidateLimit]
    omega
  rw [cutLanes, List.map_congr_left hcut, List.map_id']

variable (py) in
theorem searchMemories_eq (fts : FullText) (rows : List MemoryRecord) (scopeKey : String)
    {q : MemoryQuery} (hfilters : memoryFilters q = .ok filters) (hpos : 1 ≤ limit)
    (hlimit : limit ≤ 50) (start : Nat) :
    searchMemories py fts rows scopeKey q start limit =
      .ok (memoryPage py (queryText q) filters
        (laneRows py fts rows scopeKey filters (queryText q)) limit start) := by
  have hlim : (max 1 (min 50 (limit : Int))).toNat = limit := by omega
  have hstart : (max 0 (start : Int)).toNat = start := by omega
  rw [searchMemories, hfilters, hlim, hstart]
  rfl

/-- **Pages partition the result.** Where every lane has at most 100 rows, or eight
times the limit, no memory comes twice, and none that matches is left out when
the last page says so. The pages of a search always come to an end. -/
theorem searchMemories_pages (py : SearchPython) (fts : FullText) (rows : List MemoryRecord)
    (scopeKey : String) (q : MemoryQuery) {filters : MemoryFilters} {limit : Nat}
    (hfilters : memoryFilters q = .ok filters) (hpos : 1 ≤ limit) (hlimit : limit ≤ 50)
    (hfits : ∀ lane ∈ laneRows py fts rows scopeKey filters (queryText q),
      lane.2.length ≤ max 100 (limit * 8)) :
    let search := fun start : Nat => searchMemories py fts rows scopeKey q start limit
    (∃ pages, Follows search 0 pages) ∧ ∀ pages, Follows search 0 pages →
      (visited pages).Nodup ∧
      (∀ page, pages.getLast? = some page → page.complete = true →
        ∀ lane ∈ laneRows py fts rows scopeKey filters (queryText q), ∀ record ∈ lane.2,
          matchesGeometry py filters record = true → record.memoryId ∈ visited pages) ∧
      ∀ page ∈ pages, page.complete = false → page.nextStart = none →
        page.candidateTruncated = true := by
  intro search
  have hsearch := searchMemories_eq py fts rows scopeKey hfilters hpos hlimit
  refine ⟨follows_exists hpos hsearch 0, fun pages hpages => ?_⟩
  have hvisited : visited pages = hitIds (fuseMemoryLanes py filters
      (laneRows py fts rows scopeKey filters (queryText q))) := by
    have hresults := follows_results 0
      (fun start _ => ⟨hsearch start, by rw [cutLanes_of_fits hlimit hfits]⟩) le_rfl hpages
    rw [List.drop_zero] at hresults
    rw [hitIds, ← hresults, List.map_flatMap]
    rfl
  rw [hvisited]
  refine ⟨nodup_hitIds _, fun _ _ _ lane hlane record hrecord hmatches =>
    mem_hitIds.mpr ⟨lane, hlane, record, hrecord, hmatches, rfl⟩, fun page hpage hfalse hnone => ?_⟩
  obtain ⟨start, hok⟩ := hpages.exists_search hpage
  obtain rfl := Except.ok.inj (hok.symm.trans (hsearch start))
  by_contra hwhole
  rw [complete_iff.mpr ⟨hnone, by simpa using hwhole⟩] at hfalse
  cases hfalse

end

/-- Two memories on two pages. -/
theorem two_notes_partition : ∃ pages, Follows (fun start : Nat =>
    searchMemories lowerCasePython noFullText [note 1, note 2] "server:world:Bot1" everything
      start (1 : Nat)) 0 pages ∧ (visited pages).Nodup := by
  have hfits : ∀ lane ∈ laneRows lowerCasePython noFullText [note 1, note 2] "server:world:Bot1"
      anyFilters (queryText everything), lane.2.length ≤ max 100 (1 * 8) := by
    intro lane hlane
    rw [show queryText everything = "" from rfl, laneRows, if_pos rfl] at hlane
    obtain rfl := List.mem_singleton.mp hlane
    simp only [byId, List.length_mergeSort]
    exact (List.length_filter_le _ _).trans (by decide)
  obtain ⟨⟨pages, hpages⟩, hall⟩ := searchMemories_pages lowerCasePython noFullText
    [note 1, note 2] "server:world:Bot1" everything memoryFilters_everything le_rfl
    (by norm_num) hfits
  exact ⟨pages, hpages, (hall pages hpages).1⟩

/-! ## More memories than a page looks at -/

/-- An observed one behind the first hundred by id. -/
def observedNote : MemoryRecord :=
  { note 100 with source := .observed, evidenceRef := "observation-1" }

def notes : List MemoryRecord := (List.range 100).map note

/-- What the ids of notes differ in. -/
def noteDigits (n : Nat) : List Char := [digitChar (n / 100), digitChar (n / 10), digitChar n]

theorem append_lt (pre : String) {cs ds : List Char} (h : cs < ds) :
    pre ++ .ofList cs < pre ++ .ofList ds := by
  rw [String.lt_iff, String.toList_append, String.toList_append, String.toList_ofList,
    String.toList_ofList]
  exact List.append_left_lt h

theorem noteId_lt {m n : Nat} (h : noteDigits m < noteDigits n) : noteId m < noteId n :=
  append_lt _ h

theorem notes_sorted : ((notes ++ [observedNote]).map (·.memoryId)).Pairwise (· < ·) := by
  have hdigits : ((List.range 101).map noteDigits).Pairwise (· < ·) := by
    rw [← List.isChain_iff_pairwise]
    decide +kernel
  have hids : (notes ++ [observedNote]).map (·.memoryId) = (List.range 101).map noteId := by
    rw [List.range_succ, List.map_append, List.map_append, notes, List.map_map]
    rfl
  rw [hids, List.pairwise_map]
  exact (List.pairwise_map.mp hdigits).imp noteId_lt

theorem notes_nodup : ((notes ++ [observedNote]).map (·.memoryId)).Nodup :=
  notes_sorted.imp fun hlt => hlt.ne

theorem laneRows_notes : laneRows lowerCasePython noFullText (notes ++ [observedNote])
    "server:world:Bot1" anyFilters "" =
      [("structured", notes ++ [observedNote])] := by
  have hpasses : ∀ record ∈ notes ++ [observedNote], passesFilters lowerCasePython
      "server:world:Bot1" anyFilters record = true := by
    intro record hrecord
    rcases List.mem_append.mp hrecord with hrecord | hrecord
    · obtain ⟨n, -, rfl⟩ := List.mem_map.mp hrecord
      rfl
    · rw [List.mem_singleton.mp hrecord]
      rfl
  have hsorted : byId (notes ++ [observedNote]) = notes ++ [observedNote] :=
    List.mergeSort_of_pairwise
      ((List.pairwise_map.mp notes_sorted).imp fun hlt => decide_eq_true hlt.le)
  rw [laneRows, if_pos rfl, List.filter_eq_self.mpr hpasses, hsorted]

theorem structuredOrder_notes :
    notes.Pairwise fun a b => structuredOrder lowerCasePython a b = true := by
  have hsorted := List.pairwise_append.mp (List.map_append ▸ notes_sorted)
  refine List.pairwise_map.mpr ?_
  refine (List.pairwise_map.mp (List.pairwise_map.mp hsorted.1)).imp fun hlt => ?_
  simp only [structuredOrder, note, lt_irrefl, false_or, true_and, decide_eq_true_eq]
  exact hlt.le

theorem lowerCase_ids {records : List MemoryRecord} (hids : (records.map (·.memoryId)).Nodup) :
    hitIds (fuseMemoryLanes lowerCasePython anyFilters [("structured", records)]) =
      (records.mergeSort (structuredOrder lowerCasePython)).map (·.memoryId) := by
  refine hitIds_structured (fun score => zero_add score) (fun rank rank' hlt => ?_) rfl rfl hids
  have hlt : (rank : ℚ) < rank' := Nat.cast_lt.mpr hlt
  exact one_div_lt_one_div_of_lt (by positivity) (by linarith)

/-- The first page is cut from the hundred memories. -/
theorem ids_first_page : hitIds (fuseMemoryLanes lowerCasePython anyFilters
    (cutLanes [("structured", notes ++ [observedNote])] 12 0)) = notes.map (·.memoryId) := by
  have hcut : cutLanes [("structured", notes ++ [observedNote])] 12 0 = [("structured", notes)] :=
    congrArg (fun records => [("structured", records)])
      (List.take_left' (rfl : notes.length = candidateLimit 0 12))
  have hnodup : (notes.map (·.memoryId)).Nodup :=
    notes_nodup.sublist ((List.sublist_append_left notes _).map _)
  rw [hcut, lowerCase_ids hnodup, List.mergeSort_of_pairwise structuredOrder_notes]

/-- The others are cut from all, the observed one first. -/
theorem ids_next_pages {start : Nat} (hstart : 12 ≤ start) :
    fuseMemoryLanes lowerCasePython anyFilters
        (cutLanes [("structured", notes ++ [observedNote])] 12 start) =
      fuseMemoryLanes lowerCasePython anyFilters [("structured", notes ++ [observedNote])] := by
  have hlength : (notes ++ [observedNote]).length = 101 := rfl
  have hcut : (notes ++ [observedNote]).take (candidateLimit start 12) = notes ++ [observedNote] := by
    rw [List.take_of_length_le]
    rw [hlength, candidateLimit]
    omega
  rw [cutLanes, List.map_singleton, hcut]

theorem ids_all : hitIds (fuseMemoryLanes lowerCasePython anyFilters
    [("structured", notes ++ [observedNote])]) =
      observedNote.memoryId :: notes.map (·.memoryId) := by
  rw [lowerCase_ids notes_nodup, mergeSort_structuredOrder
    (List.perm_append_comm : ([observedNote] ++ notes).Perm (notes ++ [observedNote])) notes_nodup]
  · rfl
  · refine List.pairwise_cons.mpr ⟨fun record hrecord => ?_, structuredOrder_notes⟩
    obtain ⟨n, -, rfl⟩ := List.mem_map.mp hrecord
    rfl

def notesPage (start : Nat) : MemoryPage :=
  memoryPage lowerCasePython "" anyFilters [("structured", notes ++ [observedNote])] 12 start

/-- The second page starts behind the twelfth of a hundred. -/
theorem notesPage_next : (notesPage 0).nextStart = some 12 := by
  have hlength := congrArg List.length ids_first_page
  rw [hitIds, List.length_map, List.length_map, show notes.length = 100 from rfl] at hlength
  simp only [cutLanes] at hlength
  simp only [notesPage, memoryPage, List.length_take, List.length_drop, hlength]
  rfl

theorem notesPage_complete {start : Nat} (hstart : 12 ≤ start)
    (hnone : (notesPage start).nextStart = none) : (notesPage start).complete = true := by
  refine complete_iff.mpr ⟨hnone, ?_⟩
  have hlength : (notes ++ [observedNote]).length = 101 := rfl
  simp only [memoryPage, List.any_cons, List.any_nil, Bool.or_false, hlength, candidateLimit,
    decide_eq_false_iff_not]
  omega

/-- A hundred memories, and one observed memory behind them by id: the first page
is cut from the hundred, the second from all, where the observed one is first. The
twelfth memory is shown twice, the observed one never, and the last page says
that the result is complete. -/
theorem observed_note_skipped : ∃ pages, Follows (fun start : Nat =>
    searchMemories lowerCasePython noFullText (notes ++ [observedNote]) "server:world:Bot1"
      everything start (12 : Nat)) 0 pages ∧
    ¬ (visited pages).Nodup ∧ observedNote.memoryId ∉ visited pages ∧
    ∃ page, pages.getLast? = some page ∧ page.complete = true := by
  have hsearch : ∀ start : Nat, searchMemories lowerCasePython noFullText (notes ++ [observedNote])
      "server:world:Bot1" everything start (12 : Nat) = .ok (notesPage start) := by
    have hsearch := searchMemories_eq lowerCasePython noFullText (notes ++ [observedNote])
      "server:world:Bot1" memoryFilters_everything (by norm_num : 1 ≤ 12) (by norm_num)
    rwa [show queryText everything = "" from rfl, laneRows_notes] at hsearch
  obtain ⟨pages, hpages⟩ := follows_exists (by norm_num) hsearch 12
  have hvisited : visited (notesPage 0 :: pages) =
      (notes.map (·.memoryId)).take 12 ++ (notes.map (·.memoryId)).drop 11 := by
    have hresults := follows_results 12 (fun start hstart => ⟨hsearch start, ids_next_pages hstart⟩)
      le_rfl hpages
    have hrest : visited pages = (observedNote.memoryId :: notes.map (·.memoryId)).drop 12 := by
      rw [visited, ← List.map_flatMap, hresults, List.map_drop]
      exact congrArg (List.drop 12) ids_all
    have hfirst : (notesPage 0).results.map (·.record.memoryId) =
        (notes.map (·.memoryId)).take 12 := by
      rw [notesPage, memoryPage_results, List.drop_zero, List.map_take]
      exact congrArg (List.take 12) ids_first_page
    rw [visited, List.flatMap_cons, hfirst, ← visited, hrest]
    rfl
  have hapart := List.nodup_append.mp (List.map_append ▸ notes_nodup)
  refine ⟨_, .next (hsearch 0) notesPage_next hpages, ?_, ?_, ?_⟩
  · rw [hvisited]
    intro hnodup
    refine (List.nodup_append.mp hnodup).2.2 (noteId 11) ?_ (noteId 11) ?_ rfl
    · decide +kernel
    · decide +kernel
  · rw [hvisited]
    intro hmem
    have hnote : observedNote.memoryId ∈ notes.map (·.memoryId) :=
      (List.mem_append.mp hmem).elim List.mem_of_mem_take List.mem_of_mem_drop
    exact hapart.2.2 _ hnote _ (List.mem_singleton_self _) rfl
  · obtain ⟨start, page, hstart, hpage, hnone, hget⟩ := hpages.exists_last fun s page n hs hn => by
      obtain rfl := Except.ok.inj (hs.symm.trans (hsearch s))
      exact (nextStart_eq_some hn).1 ▸ Nat.le_add_right _ _
    obtain rfl := Except.ok.inj (hpage.symm.trans (hsearch start))
    refine ⟨_, ?_, notesPage_complete hstart hnone⟩
    rw [List.getLast?_cons, hget]
    rfl

end MemoryStore

end MineBot
