import MineBot.ProgressEpochs

/-!
# The evidence ledger

`create_progress_epoch` keeps novelty twice: in the novel keys of each
epoch and in `progress_evidence`. Both are functions of the epochs'
normalised key lists, and stay so over every sequence of calls
(`exact_createAll`).

Normalising can make two keys of one list equal, and `seen_count` counts
both: it is the number of occurrences of the key in the scope's lists.
-/

namespace MineBot

open Table

namespace ProgressStore

/-! ## Calls -/

/-- The arguments of one call of `create_progress_epoch`. -/
structure EpochCall where
  scope : RuntimeScope
  record : EpochRecord
  now : String

def empty : ProgressStore := ⟨[], [], 0⟩

/-- The tables after a call. One that raises leaves them as they were. -/
def create (st : ProgressStore) (call : EpochCall) : ProgressStore :=
  match st.createProgressEpoch call.scope call.record call.now with
  | .ok (_, st') => st'
  | .error _ => st

def createAll (calls : List EpochCall) : ProgressStore := calls.foldl create empty

/-! ## What the tables say of a key -/

variable (st : ProgressStore) (scopeKey key : String)

/-- The scope's epochs whose key list has the key, in the order of their cursors. -/
def seeing : List ProgressEpochRow :=
  st.epochs.filter fun row => row.scopeKey = scopeKey ∧ key ∈ row.epistemicKeys

/-- The scope's novel keys, epoch after epoch. -/
def novelKeys : List String :=
  (st.epochs.filter (·.scopeKey = scopeKey)).flatMap (·.novelEpistemicKeys)

def evidenceFor (evidence : List ProgressEvidenceRow) : Option ProgressEvidenceRow :=
  evidence.find? fun row => row.scopeKey = scopeKey ∧ row.evidenceKey = key

/-- How often the key occurs in the scope's key lists. -/
def occurrences : Nat := ((st.seeing scopeKey key).map (·.epistemicKeys.count key)).sum

/-- A row of `progress_evidence` that says what the epochs say. -/
structure RowExact (row : ProgressEvidenceRow) : Prop where
  first : (st.seeing scopeKey key).head?.map (·.cursor) = some row.firstEpochCursor
  last : (st.seeing scopeKey key).getLast?.map (·.cursor) = some row.lastEpochCursor
  seenCount : row.seenCount = st.occurrences scopeKey key

/-- The two tables agree with the epochs' key lists. -/
structure Exact : Prop where
  cursors : st.epochs.Pairwise fun row other => row.cursor < other.cursor
  bounded : ∀ row ∈ st.epochs, row.cursor ≤ st.lastCursor
  ids : Keyed ProgressEpochRow.epochId st.epochs
  keyed : Keyed (fun row : ProgressEvidenceRow => (row.scopeKey, row.evidenceKey)) st.evidence
  novel_seen : ∀ row ∈ st.epochs, row.novelEpistemicKeys ⊆ row.epistemicKeys
  novel_once : ∀ scopeKey key, st.seeing scopeKey key ≠ [] →
    (st.novelKeys scopeKey).count key = 1
  novel_first : ∀ scopeKey key row, (st.seeing scopeKey key).head? = some row →
    key ∈ row.novelEpistemicKeys
  unseen : ∀ scopeKey key, evidenceFor scopeKey key st.evidence = none →
    st.seeing scopeKey key = []
  seen : ∀ scopeKey key row, evidenceFor scopeKey key st.evidence = some row →
    st.RowExact scopeKey key row

/-! ## The loop over the keys -/

/-- The row of a key after one more sighting. -/
def sighted (cursor : Nat) (handle : Option String) :
    Option ProgressEvidenceRow → ProgressEvidenceRow
  | none => ⟨scopeKey, key, cursor, cursor, 1, handle⟩
  | some row =>
      { row with
        lastEpochCursor := cursor
        seenCount := row.seenCount + 1
        lastObservationHandle := handle.or row.lastObservationHandle }

section Loop

variable {scopeKey key} {scopeKey' key' : String} {cursor : Nat} {handle : Option String}
  {keys : List String} {evidence : List ProgressEvidenceRow}

theorem evidenceFor_isSome :
    (evidence.any fun row => row.scopeKey = scopeKey ∧ row.evidenceKey = key) = true
      ↔ evidenceFor scopeKey key evidence ≠ none := by
  simp [evidenceFor]

/-- The update sees the key once more and leaves the other rows. -/
theorem evidenceFor_updateWhere (h : evidenceFor scopeKey key evidence ≠ none) :
    evidenceFor scopeKey' key' (updateWhere
        (fun row => row.scopeKey = scopeKey ∧ row.evidenceKey = key)
        (fun row => sighted scopeKey key cursor handle (some row)) evidence)
      = if scopeKey' = scopeKey ∧ key' = key then
          some (sighted scopeKey key cursor handle (evidenceFor scopeKey key evidence))
        else evidenceFor scopeKey' key' evidence := by
  rw [evidenceFor, updateWhere, List.find?_map]
  have hkeeps : ((fun row : ProgressEvidenceRow =>
        decide (row.scopeKey = scopeKey' ∧ row.evidenceKey = key'))
      ∘ fun row => if decide (row.scopeKey = scopeKey ∧ row.evidenceKey = key) then
          sighted scopeKey key cursor handle (some row) else row)
      = fun row => decide (row.scopeKey = scopeKey' ∧ row.evidenceKey = key') := by
    funext row
    simp only [Function.comp_apply]
    split <;> rfl
  rw [hkeeps]
  split
  · next hsame =>
      obtain ⟨rfl, rfl⟩ := hsame
      obtain ⟨row, hrow⟩ := Option.ne_none_iff_exists'.mp h
      have hp := List.find?_some hrow
      rw [hrow]
      simp only [evidenceFor] at hrow
      rw [hrow, Option.map_some, if_pos hp]
  · next hother =>
      cases hrow : evidenceFor scopeKey' key' evidence with
      | none =>
          simp only [evidenceFor] at hrow
          rw [hrow, Option.map_none]
      | some row =>
          have hp := List.find?_some hrow
          simp only [evidenceFor] at hrow
          rw [hrow, Option.map_some, if_neg]
          intro hkey
          simp only [decide_eq_true_eq] at hp hkey
          exact hother ⟨hp.1.symm.trans hkey.1, hp.2.symm.trans hkey.2⟩

theorem evidenceFor_append (h : evidenceFor scopeKey key evidence = none) :
    evidenceFor scopeKey' key' (evidence ++ [sighted scopeKey key cursor handle none])
      = if scopeKey' = scopeKey ∧ key' = key then some (sighted scopeKey key cursor handle none)
        else evidenceFor scopeKey' key' evidence := by
  rw [evidenceFor, List.find?_append]
  split
  · next hsame =>
      obtain ⟨rfl, rfl⟩ := hsame
      simp only [evidenceFor] at h
      rw [h, Option.none_or]
      simp [sighted]
  · next hother =>
      have hnew : List.find? (fun row : ProgressEvidenceRow =>
          decide (row.scopeKey = scopeKey' ∧ row.evidenceKey = key'))
          [sighted scopeKey key cursor handle none] = none := by
        refine List.find?_eq_none.mpr fun row hrow hp => hother ?_
        rw [List.mem_singleton.mp hrow] at hp
        exact ⟨(of_decide_eq_true hp).1.symm, (of_decide_eq_true hp).2.symm⟩
      rw [hnew, Option.or_none, evidenceFor]

variable (scopeKey key cursor handle keys evidence) in
/-- One key of the loop: whether it is new, and the table it leaves. -/
theorem recordEvidence_cons : ∃ evidence',
    recordEvidence scopeKey cursor handle (key :: keys) evidence
        = (if evidenceFor scopeKey key evidence = none then
            key :: (recordEvidence scopeKey cursor handle keys evidence').1
          else (recordEvidence scopeKey cursor handle keys evidence').1,
          (recordEvidence scopeKey cursor handle keys evidence').2)
      ∧ (∀ scopeKey' key', evidenceFor scopeKey' key' evidence'
          = if scopeKey' = scopeKey ∧ key' = key then
              some (sighted scopeKey key cursor handle (evidenceFor scopeKey key evidence))
            else evidenceFor scopeKey' key' evidence)
      ∧ (Keyed (fun row : ProgressEvidenceRow => (row.scopeKey, row.evidenceKey)) evidence →
          Keyed (fun row : ProgressEvidenceRow => (row.scopeKey, row.evidenceKey)) evidence') := by
  by_cases hknown : evidenceFor scopeKey key evidence = none
  · refine ⟨evidence ++ [sighted scopeKey key cursor handle none], ?_, fun _ _ => ?_, ?_⟩
    · have hany : ¬ (evidence.any fun row =>
          row.scopeKey = scopeKey ∧ row.evidenceKey = key) = true :=
        fun h => evidenceFor_isSome.mp h hknown
      rw [recordEvidence, if_neg hany, if_pos hknown]
      rfl
    · rw [evidenceFor_append hknown, hknown]
    · intro hkeyed
      refine hkeyed.append_singleton fun row hrow hsame => ?_
      have hp := List.find?_eq_none.mp hknown row hrow
      exact hp (decide_eq_true (Prod.mk.inj hsame))
  · refine ⟨_, ?_, fun _ _ => evidenceFor_updateWhere hknown, ?_⟩
    · rw [recordEvidence, if_pos (evidenceFor_isSome.mpr hknown), if_neg hknown]
      rfl
    · intro hkeyed
      rw [Keyed, map_key_updateWhere]
      · exact hkeyed
      · exact fun _ => rfl

/-- The new keys are those of the list the table did not have, once each. -/
theorem count_recordEvidence (keys : List String) : ∀ evidence,
    (recordEvidence scopeKey cursor handle keys evidence).1.count key
      = if key ∈ keys ∧ evidenceFor scopeKey key evidence = none then 1 else 0 := by
  induction keys with
  | nil => simp [recordEvidence]
  | cons key' keys ih =>
      intro evidence
      obtain ⟨evidence', heq, hfor, -⟩ :=
        recordEvidence_cons scopeKey key' cursor handle keys evidence
      rw [heq]
      by_cases hkey : key = key'
      · subst hkey
        have hrest : (recordEvidence scopeKey cursor handle keys evidence').1.count key = 0 := by
          simp [ih, hfor]
        by_cases hknown : evidenceFor scopeKey key evidence = none <;> simp [hknown, hrest]
      · have hsame : evidenceFor scopeKey key evidence' = evidenceFor scopeKey key evidence := by
          rw [hfor, if_neg fun h => hkey h.2]
        have hrest := ih evidence'
        rw [hsame] at hrest
        by_cases hknown : evidenceFor scopeKey key' evidence = none <;>
          simp [hknown, hrest, hkey, Ne.symm hkey]

/-- The loop leaves the keys that are not on its list. -/
theorem evidenceFor_recordEvidence_of_not (keys : List String) : ∀ evidence,
    (scopeKey' = scopeKey → key ∉ keys) →
    evidenceFor scopeKey' key (recordEvidence scopeKey cursor handle keys evidence).2
      = evidenceFor scopeKey' key evidence := by
  induction keys with
  | nil => exact fun _ _ => rfl
  | cons key' keys ih =>
      intro evidence hnot
      obtain ⟨evidence', heq, hfor, -⟩ :=
        recordEvidence_cons scopeKey key' cursor handle keys evidence
      rw [heq, ih evidence' fun hs hin => hnot hs (List.mem_cons_of_mem key' hin), hfor, if_neg]
      exact fun h => hnot h.1 (h.2 ▸ List.mem_cons_self)

/-- The row of a key on the list: the first cursor stays, the last one moves
here, and every occurrence counts. -/
theorem evidenceFor_recordEvidence (keys : List String) : ∀ evidence, key ∈ keys →
    ∃ row, evidenceFor scopeKey key (recordEvidence scopeKey cursor handle keys evidence).2
        = some row
      ∧ row.firstEpochCursor
          = ((evidenceFor scopeKey key evidence).map (·.firstEpochCursor)).getD cursor
      ∧ row.lastEpochCursor = cursor
      ∧ row.seenCount
          = ((evidenceFor scopeKey key evidence).map (·.seenCount)).getD 0 + keys.count key := by
  induction keys with
  | nil => exact fun _ h => absurd h List.not_mem_nil
  | cons key' keys ih =>
      intro evidence hin
      obtain ⟨evidence', heq, hfor, -⟩ :=
        recordEvidence_cons scopeKey key' cursor handle keys evidence
      rw [heq]
      by_cases hkey : key = key'
      · subst hkey
        have hsighted : evidenceFor scopeKey key evidence'
            = some (sighted scopeKey key cursor handle (evidenceFor scopeKey key evidence)) := by
          rw [hfor, if_pos ⟨rfl, rfl⟩]
        by_cases hrest : key ∈ keys
        · obtain ⟨row, hrow, hfirst, hlast, hseen⟩ := ih evidence' hrest
          refine ⟨row, hrow, ?_, hlast, ?_⟩
          · rw [hfirst, hsighted]
            cases evidenceFor scopeKey key evidence <;> rfl
          · rw [hseen, hsighted]
            cases evidenceFor scopeKey key evidence <;> simp [sighted] <;> omega
        · refine ⟨_, (evidenceFor_recordEvidence_of_not keys evidence' fun _ => hrest).trans
            hsighted, ?_, ?_, ?_⟩
          · cases evidenceFor scopeKey key evidence <;> rfl
          · cases evidenceFor scopeKey key evidence <;> rfl
          · rw [List.count_cons_self, List.count_eq_zero_of_not_mem hrest]
            cases evidenceFor scopeKey key evidence <;> simp [sighted]
      · have hrest : key ∈ keys := (List.mem_cons.mp hin).resolve_left hkey
        have hsame : evidenceFor scopeKey key evidence' = evidenceFor scopeKey key evidence := by
          rw [hfor, if_neg fun h => hkey h.2]
        rw [List.count_cons_of_ne (Ne.symm hkey), ← hsame]
        exact ih evidence' hrest

theorem keyed_recordEvidence (keys : List String) : ∀ evidence,
    Keyed (fun row : ProgressEvidenceRow => (row.scopeKey, row.evidenceKey)) evidence →
    Keyed (fun row : ProgressEvidenceRow => (row.scopeKey, row.evidenceKey))
      (recordEvidence scopeKey cursor handle keys evidence).2 := by
  induction keys with
  | nil => exact fun _ h => h
  | cons key keys ih =>
      intro evidence hkeyed
      obtain ⟨evidence', heq, -, hkept⟩ :=
        recordEvidence_cons scopeKey key cursor handle keys evidence
      rw [heq]
      exact ih evidence' (hkept hkeyed)

end Loop

/-! ## A call -/

/-- What a call that stores a new epoch does: it appends the row, and runs the
loop over the row's keys. -/
structure Recorded (st st' : ProgressStore) (row : ProgressEpochRow) (handle : Option String) :
    Prop where
  epochs : st'.epochs = st.epochs ++ [row]
  cursor : row.cursor = st.lastCursor + 1
  lastCursor : st'.lastCursor = row.cursor
  fresh : ∀ other ∈ st.epochs, other.epochId ≠ row.epochId
  loop : (row.novelEpistemicKeys, st'.evidence)
    = recordEvidence row.scopeKey row.cursor handle row.epistemicKeys st.evidence

/-- A call that does not raise stores a new epoch, or it returns the scope's
epoch of that id and writes nothing. -/
theorem createProgressEpoch_cases {st st' : ProgressStore} {scope : RuntimeScope}
    {record : EpochRecord} {now : String} {row : ProgressEpochRow} {inserted : Bool}
    (h : st.createProgressEpoch scope record now = .ok ((row, inserted), st')) :
    (inserted = true ∧ requiredText record.epochId 256 = some row.epochId
        ∧ ∃ handle, Recorded st st' row handle)
      ∨ (inserted = false ∧ st' = st
          ∧ ∃ epochId, requiredText record.epochId 256 = some epochId
            ∧ st.getProgressEpoch scope epochId = some row) := by
  simp only [createProgressEpoch] at h
  split at h
  · cases h
  · cases h
  · next epochId runId hid hrun =>
      split at h
      · cases h
      · split at h
        · cases h
        · split at h
          · cases h
          · split at h
            · split at h
              · cases h
              · next existing hfound =>
                  cases h
                  exact .inr ⟨rfl, rfl, epochId, hid, hfound⟩
            · next hclash =>
                cases h
                refine .inl ⟨rfl, hid, (boundedTextList record.evidenceRefs 128 256).getLast?, ?_⟩
                refine { epochs := rfl, cursor := rfl, lastCursor := rfl, fresh := ?_, loop := rfl }
                intro other hother heq
                exact hclash (List.any_eq_true.mpr ⟨other, hother, by simpa using .inl heq⟩)

/-- The one error that comes from the tables: the id is not the scope's. -/
theorem createProgressEpoch_insertFailed {st : ProgressStore} {scope : RuntimeScope}
    {record : EpochRecord} {now : String}
    (h : st.createProgressEpoch scope record now = .error .insertFailed) :
    ∃ epochId, requiredText record.epochId 256 = some epochId
      ∧ st.getProgressEpoch scope epochId = none := by
  simp only [createProgressEpoch] at h
  split at h
  · cases h
  · cases h
  · next epochId runId hid hrun =>
      split at h
      · cases h
      · split at h
        · cases h
        · split at h
          · cases h
          · split at h
            · split at h
              · next hfound => exact ⟨epochId, hid, hfound⟩
              · cases h
            · cases h

namespace Recorded

variable {st st' : ProgressStore} {row : ProgressEpochRow} {handle : Option String}

theorem seeing (h : Recorded st st' row handle) (scopeKey key : String) :
    st'.seeing scopeKey key = st.seeing scopeKey key
      ++ if row.scopeKey = scopeKey ∧ key ∈ row.epistemicKeys then [row] else [] := by
  rw [ProgressStore.seeing, h.epochs, List.filter_append, ProgressStore.seeing]
  by_cases hsees : row.scopeKey = scopeKey ∧ key ∈ row.epistemicKeys
  · simp [hsees]
  · simp [hsees]

theorem count_novelKeys (h : Recorded st st' row handle) (scopeKey key : String) :
    (st'.novelKeys scopeKey).count key = (st.novelKeys scopeKey).count key
      + if row.scopeKey = scopeKey then row.novelEpistemicKeys.count key else 0 := by
  rw [novelKeys, h.epochs, List.filter_append, List.flatMap_append, List.count_append, novelKeys]
  by_cases hscope : row.scopeKey = scopeKey <;> simp [hscope]

theorem count_novel (h : Recorded st st' row handle) (key : String) :
    row.novelEpistemicKeys.count key
      = if key ∈ row.epistemicKeys ∧ evidenceFor row.scopeKey key st.evidence = none then 1
        else 0 := by
  rw [(Prod.mk.inj h.loop).1]
  exact count_recordEvidence row.epistemicKeys st.evidence

theorem novel_subset (h : Recorded st st' row handle) :
    row.novelEpistemicKeys ⊆ row.epistemicKeys := by
  intro key hkey
  have hpos := List.count_pos_iff.mpr hkey
  rw [h.count_novel] at hpos
  split at hpos
  · next hin => exact hin.1
  · exact absurd hpos (Nat.lt_irrefl 0)

theorem evidenceFor_of_not (h : Recorded st st' row handle) {scopeKey key : String}
    (hnot : ¬ (row.scopeKey = scopeKey ∧ key ∈ row.epistemicKeys)) :
    evidenceFor scopeKey key st'.evidence = evidenceFor scopeKey key st.evidence := by
  rw [(Prod.mk.inj h.loop).2]
  exact evidenceFor_recordEvidence_of_not _ _ fun hs hin => hnot ⟨hs.symm, hin⟩

end Recorded

/-- A key without a row was never seen, and one that was seen has a row. -/
theorem Exact.evidenceFor_eq_none {st : ProgressStore} (h : Exact st) (scopeKey key : String) :
    evidenceFor scopeKey key st.evidence = none ↔ st.seeing scopeKey key = [] := by
  refine ⟨h.unseen scopeKey key, fun hunseen => ?_⟩
  cases hrow : evidenceFor scopeKey key st.evidence with
  | none => rfl
  | some row =>
      have hfirst := (h.seen scopeKey key row hrow).first
      rw [hunseen] at hfirst
      cases hfirst

theorem exact_empty : Exact empty where
  cursors := .nil
  bounded := fun _ h => absurd h List.not_mem_nil
  ids := List.nodup_nil
  keyed := List.nodup_nil
  novel_seen := fun _ h => absurd h List.not_mem_nil
  novel_once := fun _ _ h => absurd rfl h
  novel_first := fun _ _ _ h => by cases h
  unseen := fun _ _ _ => rfl
  seen := fun _ _ _ h => by cases h

/-- A new epoch keeps the tables exact. -/
theorem Exact.recorded {st st' : ProgressStore} {row : ProgressEpochRow} {handle : Option String}
    (hexact : Exact st) (h : Recorded st st' row handle) : Exact st' where
  cursors := by
    rw [h.epochs, List.pairwise_append]
    refine ⟨hexact.cursors, List.pairwise_singleton _ _, fun other hother last hlast => ?_⟩
    rw [List.mem_singleton.mp hlast, h.cursor]
    exact Nat.lt_succ_of_le (hexact.bounded other hother)
  bounded := by
    intro other hother
    rw [h.epochs] at hother
    rcases List.mem_append.mp hother with hother | hother
    · have hle := hexact.bounded other hother
      rw [h.lastCursor, h.cursor]
      omega
    · rw [List.mem_singleton.mp hother, h.lastCursor]
  ids := by
    rw [h.epochs]
    exact hexact.ids.append_singleton h.fresh
  keyed := by
    rw [(Prod.mk.inj h.loop).2]
    exact keyed_recordEvidence _ _ hexact.keyed
  novel_seen := by
    intro other hother
    rw [h.epochs] at hother
    rcases List.mem_append.mp hother with hother | hother
    · exact hexact.novel_seen other hother
    · rw [List.mem_singleton.mp hother]
      exact h.novel_subset
  novel_once := by
    intro scopeKey key hseen
    rw [h.count_novelKeys, h.count_novel]
    by_cases hold : st.seeing scopeKey key = []
    · -- the first sighting is this one
      have hsees : row.scopeKey = scopeKey ∧ key ∈ row.epistemicKeys := by
        by_contra hnot
        rw [h.seeing, hold, if_neg hnot] at hseen
        exact hseen rfl
      have hnone : (st.novelKeys scopeKey).count key = 0 := by
        refine List.count_eq_zero_of_not_mem fun hin => ?_
        obtain ⟨other, hother, hkey⟩ := List.mem_flatMap.mp hin
        obtain ⟨hother, hscope⟩ := List.mem_filter.mp hother
        have hmem : other ∈ st.seeing scopeKey key :=
          List.mem_filter.mpr ⟨hother, decide_eq_true
            ⟨of_decide_eq_true hscope, hexact.novel_seen other hother hkey⟩⟩
        rw [hold] at hmem
        exact absurd hmem List.not_mem_nil
      have hunknown := (hexact.evidenceFor_eq_none scopeKey key).mpr hold
      rw [hnone, if_pos hsees.1, if_pos ⟨hsees.2, hsees.1 ▸ hunknown⟩]
    · rw [hexact.novel_once scopeKey key hold]
      split
      · next hscope =>
          rw [if_neg]
          rintro ⟨-, hunknown⟩
          exact hold (hexact.unseen scopeKey key (hscope ▸ hunknown))
      · rfl
  novel_first := by
    intro scopeKey key first hfirst
    rw [h.seeing, List.head?_append] at hfirst
    cases hold : (st.seeing scopeKey key).head? with
    | some other =>
        rw [hold, Option.some_or] at hfirst
        cases hfirst
        exact hexact.novel_first scopeKey key first hold
    | none =>
        rw [hold, Option.none_or] at hfirst
        split at hfirst
        · next hsees =>
            cases hfirst
            have hunknown := (hexact.evidenceFor_eq_none scopeKey key).mpr
              (List.head?_eq_none_iff.mp hold)
            refine List.count_pos_iff.mp ?_
            rw [h.count_novel, if_pos ⟨hsees.2, hsees.1 ▸ hunknown⟩]
            exact Nat.one_pos
        · cases hfirst
  unseen := by
    intro scopeKey key hnone
    by_cases hsees : row.scopeKey = scopeKey ∧ key ∈ row.epistemicKeys
    · obtain ⟨other, hother, -⟩ := evidenceFor_recordEvidence
        row.epistemicKeys st.evidence hsees.2
      rw [← (Prod.mk.inj h.loop).2, hsees.1, hnone] at hother
      cases hother
    · rw [h.evidenceFor_of_not hsees] at hnone
      rw [h.seeing, hexact.unseen scopeKey key hnone, if_neg hsees, List.append_nil]
  seen := by
    intro scopeKey key found hfound
    by_cases hsees : row.scopeKey = scopeKey ∧ key ∈ row.epistemicKeys
    · obtain ⟨other, hother, hfirst, hlast, hcount⟩ := evidenceFor_recordEvidence
        row.epistemicKeys st.evidence hsees.2
      rw [← (Prod.mk.inj h.loop).2, hsees.1, hfound] at hother
      cases hother
      have hseeing : st'.seeing scopeKey key = st.seeing scopeKey key ++ [row] := by
        rw [h.seeing, if_pos hsees]
      have hold : (evidenceFor scopeKey key st.evidence).map (·.firstEpochCursor)
            = (st.seeing scopeKey key).head?.map (·.cursor)
          ∧ ((evidenceFor scopeKey key st.evidence).map (·.seenCount)).getD 0
            = st.occurrences scopeKey key := by
        cases hrow : evidenceFor scopeKey key st.evidence with
        | none => simp [occurrences, hexact.unseen scopeKey key hrow]
        | some old =>
            have hold := hexact.seen scopeKey key old hrow
            exact ⟨hold.first.symm, hold.seenCount⟩
      rw [hsees.1] at hfirst hcount
      refine ⟨?_, ?_, ?_⟩
      · rw [hseeing, List.head?_append, hfirst, hold.1]
        cases (st.seeing scopeKey key).head? <;> rfl
      · rw [hseeing, List.getLast?_append, hlast]
        rfl
      · rw [hcount, hold.2, occurrences, occurrences, hseeing, List.map_append, List.sum_append]
        simp
    · rw [h.evidenceFor_of_not hsees] at hfound
      have hold := hexact.seen scopeKey key found hfound
      have hseeing : st'.seeing scopeKey key = st.seeing scopeKey key := by
        rw [h.seeing, if_neg hsees, List.append_nil]
      exact ⟨hseeing ▸ hold.first, hseeing ▸ hold.last, by
        rw [occurrences, hseeing]; exact hold.seenCount⟩

theorem Exact.create {st : ProgressStore} (h : Exact st) (call : EpochCall) :
    Exact (st.create call) := by
  rw [ProgressStore.create]
  split
  · next row st' hcreated =>
      obtain ⟨row, inserted⟩ := row
      rcases createProgressEpoch_cases hcreated with ⟨-, -, handle, hrecorded⟩ | ⟨-, rfl, -⟩
      · exact h.recorded hrecorded
      · exact h
  · exact h

theorem exact_createAll (calls : List EpochCall) : Exact (createAll calls) := by
  induction calls using List.reverseRecOn with
  | nil => exact exact_empty
  | append_singleton calls call ih =>
      rw [createAll, List.foldl_append]
      exact ih.create call

/-- The scope's epoch of an id is the only one of that id. -/
theorem Exact.getProgressEpoch {st : ProgressStore} (h : Exact st) {row : ProgressEpochRow}
    (hrow : row ∈ st.epochs) {scope : RuntimeScope} {found : ProgressEpochRow}
    (hfound : st.getProgressEpoch scope row.epochId = some found) :
    found = row ∧ row.scopeKey = scope.key := by
  rw [ProgressStore.getProgressEpoch] at hfound
  have hp := List.find?_some hfound
  obtain ⟨hscope, hid⟩ := of_decide_eq_true hp
  obtain rfl := h.ids.unique (List.mem_of_find?_eq_some hfound) hrow hid
  exact ⟨rfl, hscope⟩

/-- A call with the id of a stored epoch writes nothing. In that epoch's scope
it returns the epoch, unless it is refused before the tables are read; in
another scope it raises. -/
theorem Exact.stored {st : ProgressStore} (h : Exact st) {call : EpochCall}
    {row : ProgressEpochRow} (hrow : row ∈ st.epochs)
    (hid : requiredText call.record.epochId 256 = some row.epochId) :
    st.create call = st
      ∧ (∀ found st', st.createProgressEpoch call.scope call.record call.now = .ok (found, st') →
          found = (row, false) ∧ row.scopeKey = call.scope.key)
      ∧ (row.scopeKey = call.scope.key →
          st.createProgressEpoch call.scope call.record call.now ≠ .error .insertFailed) := by
  have hreturned : ∀ found st',
      st.createProgressEpoch call.scope call.record call.now = .ok (found, st') →
        found = (row, false) ∧ row.scopeKey = call.scope.key ∧ st' = st := by
    intro found st' hcreated
    obtain ⟨found, inserted⟩ := found
    rcases createProgressEpoch_cases hcreated with
      ⟨-, hsame, handle, hrecorded⟩ | ⟨rfl, rfl, epochId, hsame, hfound⟩
    · exact absurd (Option.some.inj (hid.symm.trans hsame)) (hrecorded.fresh row hrow)
    · cases Option.some.inj (hid.symm.trans hsame)
      obtain ⟨rfl, hscope⟩ := h.getProgressEpoch hrow hfound
      exact ⟨rfl, hscope, rfl⟩
  refine ⟨?_, fun found st' hcreated => ?_, fun hscope hfailed => ?_⟩
  · rw [ProgressStore.create]
    split
    · next hcreated => exact (hreturned _ _ hcreated).2.2
    · rfl
  · obtain ⟨hfound, hscope, -⟩ := hreturned found st' hcreated
    exact ⟨hfound, hscope⟩
  · obtain ⟨epochId, hsame, hnone⟩ := createProgressEpoch_insertFailed hfailed
    cases Option.some.inj (hid.symm.trans hsame)
    have hmem := List.find?_eq_none.mp hnone row hrow
    exact hmem (decide_eq_true ⟨hscope, rfl⟩)

/-! ## The ledger -/

/-- After every sequence of calls the tables are exact, and the next call with
the id of a stored epoch writes nothing. -/
theorem ledger_exact (calls : List EpochCall) : Exact (createAll calls)
    ∧ ∀ call row, row ∈ (createAll calls).epochs →
      requiredText call.record.epochId 256 = some row.epochId →
      (createAll calls).create call = createAll calls
        ∧ (∀ found st', (createAll calls).createProgressEpoch call.scope call.record call.now
            = .ok (found, st') → found = (row, false) ∧ row.scopeKey = call.scope.key)
        ∧ (row.scopeKey = call.scope.key →
            (createAll calls).createProgressEpoch call.scope call.record call.now
              ≠ .error .insertFailed) :=
  ⟨exact_createAll calls, fun _ _ hrow hid => (exact_createAll calls).stored hrow hid⟩

/-- One epoch, whose two keys normalise to one. -/
def twiceSeen : EpochCall where
  scope := ⟨"home", "bot"⟩
  record :=
    { epochId := "epoch-1", runId := "run-1", modelTurn := 1, members := []
      preBodyFingerprint := none, postBodyFingerprint := none, evidenceRefs := []
      epistemicKeys := ["cave", "cave "], materialChanged := false
      budgetCheckpointId := none, commitInput := [] }
  now := "now"

/-- The count is not the number of epochs that have the key, and an id that
another scope has is not found again. -/
theorem twiceSeen_inexact :
    (∃ row, evidenceFor "home" "cave" (createAll [twiceSeen]).evidence = some row
        ∧ row.seenCount = 2 ∧ ((createAll [twiceSeen]).seeing "home" "cave").length = 1)
      ∧ (createAll [twiceSeen]).createProgressEpoch ⟨"away", "bot"⟩ twiceSeen.record "now"
          = .error .insertFailed := by
  exact ⟨⟨_, rfl, rfl, rfl⟩, rfl⟩

end ProgressStore

end MineBot
