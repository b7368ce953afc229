import MineBot.MemoryStore

/-!
# Supersession chains

A retired memory points at its replacement. A chain of such pointers is
meant to stay resolvable through every run of the calls, and trust is not
meant to fall along an edit. Neither is so by itself: `supersede_memory`
looks at the replacement alone, and `delete_memory` at nothing but the row
it takes out.

- `step_effect`: what a call does to the rows, when it does anything.
- `step_keeps_iff`: a call leaves every chain resolvable, and lowers no
  trust, exactly if it is `Careful`.
- `superseded_resolvable`: the same along a run.
-/

namespace MineBot

namespace MemoryStore

open Table Forwarding

variable {rows : List MemoryRecord} {call : MemoryCall} {scope k : String}

/-! ## What a call does -/

/-- The pointers of a scope. -/
def points (rows : List MemoryRecord) (scopeKey : String) (memoryId : String) :
    Option (Option String) :=
  (getMemory rows scopeKey memoryId).map (·.supersededBy)

/-- A call that takes out or retires no memory. -/
def Idle (rows : List MemoryRecord) (call : MemoryCall) : Prop :=
  match call.op with
  | .create .. | .update .. => True
  | .delete memoryId revision =>
      ∀ r ∈ rows, memoryAt call.scopeKey memoryId revision r = false
  | .supersede memoryId supersededBy revision =>
      pyStrip supersededBy = "" ∨ pyStrip supersededBy = memoryId ∨
        getMemory rows call.scopeKey (pyStrip supersededBy) = none ∨
        ∀ r ∈ rows, memoryAt call.scopeKey memoryId revision r = false

/-- The rows after a call, and its answer. -/
inductive Effect (rows : List MemoryRecord) (call : MemoryCall) : MemoryOutcome → Prop where
  | refused {e : MemoryError} : Idle rows call → Effect rows call (.error e, rows)
  | created {draft : MemoryDraft} {handles : List String} {memoryId : String}
      {record : MemoryRecord} : call.op = .create draft handles memoryId →
      record.scopeKey = call.scopeKey → record.supersededBy = none →
      (∀ r ∈ rows, r.memoryId ≠ record.memoryId) →
      Effect rows call (.ok (some record), rows ++ [record])
  | updated {memoryId : String} {revision : Int} {draft : MemoryDraft} {values : MemoryValues}
      {old : MemoryRecord} : call.op = .update memoryId revision draft → old ∈ rows →
      memoryAt call.scopeKey memoryId revision old = true →
      old.source.rank ≤ values.source.rank →
      Effect rows call (.ok (some (old.rewritten values call.now)),
        updateWhere (memoryAt call.scopeKey memoryId revision)
          (MemoryRecord.rewritten values call.now) rows)
  | deleted {memoryId : String} {revision : Int} {old : MemoryRecord} :
      call.op = .delete memoryId revision → old ∈ rows →
      memoryAt call.scopeKey memoryId revision old = true →
      Effect rows call (.ok none,
        rows.filter fun r => !memoryAt call.scopeKey memoryId revision r)
  | superseded {memoryId supersededBy : String} {revision : Int} {old successor : MemoryRecord} :
      call.op = .supersede memoryId supersededBy revision → old ∈ rows →
      memoryAt call.scopeKey memoryId revision old = true → successor ∈ rows →
      successor.scopeKey = call.scopeKey → successor.memoryId = pyStrip supersededBy →
      pyStrip supersededBy ≠ "" → pyStrip supersededBy ≠ memoryId →
      Effect rows call (.ok (some (old.retired (pyStrip supersededBy) call.now)),
        updateWhere (memoryAt call.scopeKey memoryId revision)
          (MemoryRecord.retired (pyStrip supersededBy) call.now) rows)

theorem memoryAt_iff {memoryId : String} {revision : Int} {r : MemoryRecord} :
    memoryAt scope memoryId revision r = true ↔
      r.scopeKey = scope ∧ r.memoryId = memoryId ∧ r.revision = revision := by
  simp [memoryAt]

theorem getMemory_iff (h : Keyed (·.memoryId) rows) {memoryId : String} {r : MemoryRecord} :
    getMemory rows scope memoryId = some r ↔
      r ∈ rows ∧ r.scopeKey = scope ∧ r.memoryId = memoryId := by
  constructor
  · intro hget
    refine ⟨List.mem_of_find?_eq_some hget, ?_⟩
    simpa using List.find?_some hget
  · rintro ⟨hr, rfl, rfl⟩
    refine h.find?_eq_some hr (by simp) fun x hx => ?_
    simp only [decide_eq_true_eq] at hx
    exact hx.2

theorem points_iff (h : Keyed (·.memoryId) rows) {b : Option String} :
    points rows scope k = some b ↔
      ∃ r ∈ rows, r.scopeKey = scope ∧ r.memoryId = k ∧ r.supersededBy = b := by
  simp only [points, Option.map_eq_some_iff, getMemory_iff h, and_assoc]

/-- A row is written whole or not at all: the rows a call matches are one. -/
theorem count_ne_one (h : Keyed (·.memoryId) rows) {memoryId : String} {revision : Int}
    (hcount : rows.countP (memoryAt scope memoryId revision) ≠ 1) :
    ∀ r ∈ rows, memoryAt scope memoryId revision r = false := by
  refine fun r hr => Bool.eq_false_iff.mpr fun hat => hcount ?_
  refine h.countP_eq_one hr (fun x hx => ?_) hat
  rw [(memoryAt_iff.mp hx).2.1, (memoryAt_iff.mp hat).2.1]

theorem exists_of_count {memoryId : String} {revision : Int}
    (hcount : rows.countP (memoryAt scope memoryId revision) = 1) :
    ∃ r ∈ rows, memoryAt scope memoryId revision r = true :=
  List.countP_pos_iff.mp (by omega)

/-- A write of the row that keeps its id and scope is read back. -/
theorem answerMemory_updateWhere {memoryId : String} {revision : Int} {old : MemoryRecord}
    {f : MemoryRecord → MemoryRecord} (hid : ∀ r, (f r).memoryId = r.memoryId)
    (hscope : ∀ r, (f r).scopeKey = r.scopeKey) (hold : old ∈ rows)
    (hat : memoryAt scope memoryId revision old = true)
    (hkeyed : Keyed (·.memoryId) (updateWhere (memoryAt scope memoryId revision) f rows)) :
    answerMemory (updateWhere (memoryAt scope memoryId revision) f rows) scope memoryId =
      (.ok (some (f old)), updateWhere (memoryAt scope memoryId revision) f rows) := by
  have hread := (getMemory_iff hkeyed).mpr ⟨mem_updateWhere_of (f := f) hold hat,
    (hscope old).trans (memoryAt_iff.mp hat).1, (hid old).trans (memoryAt_iff.mp hat).2.1⟩
  rw [answerMemory, hread]

theorem keyed_retired (h : MemoriesUnique rows) (p : MemoryRecord → Bool) (successor : String)
    (now : Nat) : MemoriesUnique (updateWhere p (MemoryRecord.retired successor now) rows) := by
  refine ⟨?_, ?_⟩
  · rw [Keyed, map_key_updateWhere (f := MemoryRecord.retired successor now) fun _ => rfl]
    exact h.1
  · have hfilter : (updateWhere p (MemoryRecord.retired successor now) rows).filter
          (·.subjectKey ≠ "")
        = updateWhere p (MemoryRecord.retired successor now) (rows.filter (·.subjectKey ≠ "")) := by
      rw [updateWhere, updateWhere, List.filter_map]
      congr 1
      refine List.filter_congr fun r _ => ?_
      simp only [Function.comp_apply]
      split <;> rfl
    rw [hfilter, Keyed, map_key_updateWhere (f := MemoryRecord.retired successor now) fun _ => rfl]
    exact h.2

theorem unique_filter (h : MemoriesUnique rows) (p : MemoryRecord → Bool) :
    MemoriesUnique (rows.filter p) := by
  refine ⟨h.1.sublist (List.filter_sublist.map _), h.2.sublist (List.Sublist.map _ ?_)⟩
  exact List.filter_sublist.filter _

/-- **A call.** It leaves the rows well keyed, and does to them what its
`Effect` says. -/
theorem step_effect (h : MemoriesUnique rows) (call : MemoryCall) :
    Effect rows call (step rows call) ∧ MemoriesUnique (step rows call).2 := by
  obtain ⟨scope, now, op⟩ := call
  cases op with
  | create draft handles memoryId =>
      simp only [step, createMemory]
      split
      · exact ⟨.refused trivial, h⟩
      · next values _ =>
          split
          · next hunique =>
              generalize hrow : newMemory scope values (normalizedEvidenceHandles handles) memoryId
                now = row at hunique ⊢
              have hid : row.memoryId = memoryId := by rw [← hrow]; rfl
              have hscope : row.scopeKey = scope := by rw [← hrow]; rfl
              have hread := (getMemory_iff hunique.1).mpr
                ⟨List.mem_append_right rows (List.mem_singleton_self row), hscope, hid⟩
              rw [answerMemory, hread]
              refine ⟨.created rfl hscope (by rw [← hrow]; rfl) fun r hr hsame => ?_, hunique⟩
              have hnodup := hunique.1
              rw [Keyed, List.map_append, List.nodup_append] at hnodup
              exact hnodup.2.2 _ (List.mem_map_of_mem hr) _ (by simp) hsame
          · exact ⟨.refused trivial, h⟩
  | update memoryId revision draft =>
      simp only [step, updateMemory]
      split
      · exact ⟨.refused trivial, h⟩
      · next current hcurrent =>
          split
          · exact ⟨.refused trivial, h⟩
          · next hrevision =>
              split
              · exact ⟨.refused trivial, h⟩
              · next values _ =>
                  split
                  · exact ⟨.refused trivial, h⟩
                  · next hrank =>
                      obtain ⟨hmem, hscope, hid⟩ := (getMemory_iff h.1).mp hcurrent
                      have hat : memoryAt scope memoryId revision current = true :=
                        memoryAt_iff.mpr ⟨hscope, hid, Decidable.not_not.mp hrevision⟩
                      split
                      · exact ⟨.refused trivial, h⟩
                      · next hunique =>
                          have hunique := Decidable.not_not.mp hunique
                          rw [if_neg (by
                            intro hcount
                            rw [count_ne_one h.1 hcount current hmem] at hat
                            cases hat),
                            answerMemory_updateWhere (f := MemoryRecord.rewritten values now)
                              (fun _ => rfl) (fun _ => rfl) hmem hat hunique.1]
                          exact ⟨.updated rfl hmem hat (Nat.le_of_not_lt hrank), hunique⟩
  | delete memoryId revision =>
      simp only [step, deleteMemory]
      split
      · next hcount =>
          have hnone := count_ne_one h.1 hcount
          rw [List.filter_eq_self.mpr fun r hr => by simp [hnone r hr]]
          exact ⟨.refused hnone, h⟩
      · next hcount =>
          obtain ⟨old, hold, hat⟩ := exists_of_count (Decidable.not_not.mp hcount)
          exact ⟨.deleted rfl hold hat, unique_filter h _⟩
  | supersede memoryId supersededBy revision =>
      simp only [step, supersedeMemory]
      split
      · next hblank => exact ⟨.refused (.inl hblank), h⟩
      · next hblank =>
          split
          · next hself => exact ⟨.refused (.inr (.inl hself)), h⟩
          · next hself =>
              split
              · next hnone => exact ⟨.refused (.inr (.inr (.inl hnone))), h⟩
              · next hfound =>
                  obtain ⟨successor, hget⟩ := Option.ne_none_iff_exists'.mp hfound
                  obtain ⟨hsuccessor, hscope, hid⟩ := (getMemory_iff h.1).mp hget
                  split
                  · next hcount =>
                      have hnone := count_ne_one h.1 hcount
                      rw [updateWhere_none hnone]
                      exact ⟨.refused (.inr (.inr (.inr hnone))), h⟩
                  · next hcount =>
                      obtain ⟨old, hold, hat⟩ := exists_of_count (Decidable.not_not.mp hcount)
                      have hunique := keyed_retired h (memoryAt scope memoryId revision)
                        (pyStrip supersededBy) now
                      rw [answerMemory_updateWhere
                        (f := MemoryRecord.retired (pyStrip supersededBy) now)
                        (fun _ => rfl) (fun _ => rfl) hold hat hunique.1]
                      exact ⟨.superseded rfl hold hat hsuccessor hscope hid hblank hself, hunique⟩

/-! ## What it does to the pointers -/

/-- Rows that differ in one memory have the same pointers elsewhere. -/
theorem points_congr {rows' : List MemoryRecord} (h : Keyed (·.memoryId) rows)
    (h' : Keyed (·.memoryId) rows')
    (hsame : ∀ b, (∃ r ∈ rows', r.scopeKey = scope ∧ r.memoryId = k ∧ r.supersededBy = b) ↔
      ∃ r ∈ rows, r.scopeKey = scope ∧ r.memoryId = k ∧ r.supersededBy = b) :
    points rows' scope k = points rows scope k := by
  refine Option.ext fun b => ?_
  rw [points_iff h, points_iff h', hsame]

theorem points_append (h : Keyed (·.memoryId) rows) {record : MemoryRecord}
    (h' : Keyed (·.memoryId) (rows ++ [record]))
    (hne : scope ≠ record.scopeKey ∨ k ≠ record.memoryId) :
    points (rows ++ [record]) scope k = points rows scope k := by
  refine points_congr h h' fun b => ?_
  simp only [List.mem_append, List.mem_singleton, or_and_right, exists_or, exists_eq_left]
  refine or_iff_left ?_
  rintro ⟨hscope, hid, _⟩
  exact hne.elim (fun h => h hscope.symm) fun h => h hid.symm

theorem points_updateWhere {p : MemoryRecord → Bool} {f : MemoryRecord → MemoryRecord}
    (hid : ∀ r, (f r).memoryId = r.memoryId) (hscope : ∀ r, (f r).scopeKey = r.scopeKey)
    (h : Keyed (·.memoryId) rows)
    (hkeep : ∀ r, r.scopeKey = scope → r.memoryId = k → p r = true →
      (f r).supersededBy = r.supersededBy) :
    points (updateWhere p f rows) scope k = points rows scope k := by
  have h' : Keyed (·.memoryId) (updateWhere p f rows) := by
    rw [Keyed, map_key_updateWhere hid]
    exact h
  refine points_congr h h' fun b => ?_
  constructor
  · rintro ⟨_, hmem, hs, hk, hb⟩
    obtain ⟨r, hr, rfl⟩ := mem_updateWhere.mp hmem
    split at hs
    · next hp =>
        rw [if_pos hp] at hk hb
        rw [hscope] at hs
        rw [hid] at hk
        exact ⟨r, hr, hs, hk, (hkeep r hs hk hp).symm.trans hb⟩
    · next hp =>
        rw [if_neg hp] at hk hb
        exact ⟨r, hr, hs, hk, hb⟩
  · rintro ⟨r, hr, hs, hk, hb⟩
    cases hp : p r with
    | false => exact ⟨r, mem_updateWhere_of_not hr hp, hs, hk, hb⟩
    | true =>
        exact ⟨f r, mem_updateWhere_of hr hp, (hscope r).trans hs, (hid r).trans hk,
          (hkeep r hs hk hp).trans hb⟩

theorem points_filter (h : Keyed (·.memoryId) rows) {p : MemoryRecord → Bool}
    (hkeep : ∀ r ∈ rows, r.scopeKey = scope → r.memoryId = k → p r = true) :
    points (rows.filter p) scope k = points rows scope k := by
  refine points_congr h (h.sublist (List.filter_sublist.map _)) fun b => ?_
  simp only [List.mem_filter]
  constructor
  · rintro ⟨r, ⟨hr, _⟩, hrest⟩
    exact ⟨r, hr, hrest⟩
  · rintro ⟨r, hr, hs, hk, hb⟩
    exact ⟨r, ⟨hr, hkeep r hr hs hk⟩, hs, hk, hb⟩

/-! ## Careful calls -/

/-- From each memory the pointers lead to one of its scope that is not
superseded. -/
def Resolvable (rows : List MemoryRecord) : Prop :=
  ∀ scope, Settled (points rows scope)

/-- No content is overwritten by, and no memory retired in favour of, one
whose source ranks below. -/
def KeepsTrust (rows : List MemoryRecord) (call : MemoryCall) :
    Except MemoryError (Option MemoryRecord) → Prop
  | .ok (some record) =>
      match call.op with
      | .update memoryId _ _ => ∀ r ∈ rows, r.scopeKey = call.scopeKey → r.memoryId = memoryId →
          r.source.rank ≤ record.source.rank
      | .supersede memoryId _ _ => ∀ r ∈ rows, r.scopeKey = call.scopeKey → r.memoryId = memoryId →
          ∀ t ∈ rows, t.scopeKey = call.scopeKey → record.supersededBy = some t.memoryId →
            r.source.rank ≤ t.source.rank
      | _ => True
  | _ => True

instance (rows : List MemoryRecord) (call : MemoryCall)
    (answer : Except MemoryError (Option MemoryRecord)) : Decidable (KeepsTrust rows call answer) :=
  match call, answer with
  | ⟨_, _, .update ..⟩, .ok (some _) => inferInstanceAs (Decidable (∀ r ∈ rows, _ → _ → _))
  | ⟨_, _, .supersede ..⟩, .ok (some _) =>
      inferInstanceAs (Decidable (∀ r ∈ rows, _ → _ → ∀ t ∈ rows, _ → _ → _))
  | ⟨_, _, .create ..⟩, .ok (some _) | ⟨_, _, .delete ..⟩, .ok (some _) | _, .ok none
  | _, .error _ => .isTrue trivial

/-- A memory is taken out only if none points at it, and retired only in
favour of one whose own chain does not lead back to it and whose source
does not rank below. -/
def Careful (rows : List MemoryRecord) (call : MemoryCall) : Prop :=
  match call.op with
  | .create .. | .update .. => True
  | .delete memoryId revision =>
      ∀ r ∈ rows, memoryAt call.scopeKey memoryId revision r = true →
        ∀ k, points rows call.scopeKey k ≠ some (some memoryId)
  | .supersede memoryId supersededBy revision =>
      ∀ r ∈ rows, memoryAt call.scopeKey memoryId revision r = true →
        ∀ t ∈ rows, t.scopeKey = call.scopeKey → t.memoryId = pyStrip supersededBy →
          pyStrip supersededBy ≠ "" → pyStrip supersededBy ≠ memoryId →
          ¬ Forwarding.Follows (points rows call.scopeKey) (pyStrip supersededBy) memoryId ∧
            r.source.rank ≤ t.source.rank

theorem Idle.careful (h : Idle rows call) (hkeyed : Keyed (·.memoryId) rows) :
    Careful rows call := by
  unfold Idle at h
  unfold Careful
  split at h
  · simp only
  · simp only
  · exact fun r hr hat => absurd hat (by simp [h r hr])
  · intro r hr hat t ht htscope htid hblank hself
    rcases h with h | h | h | h
    · exact absurd h hblank
    · exact absurd h hself
    · rw [(getMemory_iff hkeyed).mpr ⟨ht, htscope, htid⟩] at h
      cases h
    · rw [h r hr] at hat
      cases hat

theorem isSome_points (h : Keyed (·.memoryId) rows) {r : MemoryRecord} (hr : r ∈ rows) :
    (points rows r.scopeKey r.memoryId).isSome := by
  rw [(points_iff h).mpr ⟨r, hr, rfl, rfl, rfl⟩]
  rfl

/-- A call changes the pointers of its own scope only, so a settled table
stays so in the others. -/
theorem resolvable_iff {rows' : List MemoryRecord} (h : Resolvable rows)
    (hother : ∀ s, s ≠ scope → ∀ k, points rows' s k = points rows s k) :
    Resolvable rows' ↔ Settled (points rows' scope) := by
  refine ⟨fun h' => h' scope, fun h' s => ?_⟩
  by_cases hs : s = scope
  · exact hs ▸ h'
  · exact (h s).congr (hother s hs)

/-- **A call that starts from resolvable chains** keeps them, and lowers no
trust, exactly if it is careful. -/
theorem step_keeps_iff (hunique : MemoriesUnique rows) (h : Resolvable rows) :
    Resolvable (step rows call).2 ∧ KeepsTrust rows call (step rows call).1 ↔
      Careful rows call := by
  obtain ⟨heffect, hunique'⟩ := step_effect hunique call
  have hkeyed := hunique.1
  generalize step rows call = outcome at heffect hunique' ⊢
  cases heffect with
  | refused hidle => exact iff_of_true ⟨h, trivial⟩ (hidle.careful hkeyed)
  | @created draft handles memoryId record hop hscope hnone hfresh =>
      have hother : ∀ s k, s ≠ record.scopeKey ∨ k ≠ record.memoryId →
          points (rows ++ [record]) s k = points rows s k :=
        fun s k hne => points_append hkeyed hunique'.1 hne
      have hroot : points (rows ++ [record]) record.scopeKey record.memoryId = some none :=
        (points_iff hunique'.1).mpr
          ⟨record, List.mem_append_right rows (List.mem_singleton_self record), rfl, rfl, hnone⟩
      refine iff_of_true ⟨(resolvable_iff h fun s hs k => hother s k (.inl hs)).mpr ?_, ?_⟩ ?_
      · exact (h record.scopeKey).extend (fun l hl => hother _ l (.inr hl)) hroot
      · simp only [KeepsTrust, hop]
      · simp only [Careful, hop]
  | @updated memoryId revision draft values old hop hold hat hrank =>
      obtain ⟨hscope, hid, _⟩ := memoryAt_iff.mp hat
      refine iff_of_true ⟨fun s => (h s).congr fun k => ?_, ?_⟩ ?_
      · exact points_updateWhere (f := MemoryRecord.rewritten values call.now) (fun _ => rfl)
          (fun _ => rfl) hkeyed fun _ _ _ _ => rfl
      · simp only [KeepsTrust, hop]
        intro r hr _ hrid
        rw [hkeyed.unique hr hold (hrid.trans hid.symm)]
        exact hrank
      · simp only [Careful, hop]
  | @deleted memoryId revision old hop hold hat =>
      obtain ⟨hscope, hid, _⟩ := memoryAt_iff.mp hat
      have hother : ∀ s k, s ≠ call.scopeKey ∨ k ≠ memoryId →
          points (rows.filter fun r => !memoryAt call.scopeKey memoryId revision r) s k
            = points rows s k := by
        refine fun s k hne => points_filter hkeyed fun r _ hs hk => ?_
        rw [Bool.not_eq_true', Bool.eq_false_iff, Ne, memoryAt_iff]
        rintro ⟨hs', hk', _⟩
        exact hne.elim (fun h => h (hs.symm.trans hs')) fun h => h (hk.symm.trans hk')
      have hgone : points (rows.filter fun r => !memoryAt call.scopeKey memoryId revision r)
          call.scopeKey memoryId = none := by
        refine Option.eq_none_iff_forall_ne_some.mpr fun b hb => ?_
        obtain ⟨r, hr, _, hrid, _⟩ := (points_iff hunique'.1).mp hb
        obtain ⟨hr, hnot⟩ := List.mem_filter.mp hr
        rw [hkeyed.unique hr hold (hrid.trans hid.symm), hat] at hnot
        cases hnot
      rw [resolvable_iff h fun s hs k => hother s k (.inl hs),
        (h call.scopeKey).erase_iff (fun l hl => hother _ l (.inr hl)) hgone]
      simp only [KeepsTrust, and_true, Careful, hop]
      exact ⟨fun halone _ _ _ => halone, fun hcareful => hcareful old hold hat⟩
  | @superseded memoryId supersededBy revision old successor hop hold hat hsuccessor hsscope hsid
      hblank hself =>
      obtain ⟨hscope, hid, _⟩ := memoryAt_iff.mp hat
      have hother : ∀ s k, s ≠ call.scopeKey ∨ k ≠ memoryId →
          points (updateWhere (memoryAt call.scopeKey memoryId revision)
            (MemoryRecord.retired (pyStrip supersededBy) call.now) rows) s k = points rows s k := by
        refine fun s k hne => points_updateWhere
          (f := MemoryRecord.retired (pyStrip supersededBy) call.now) (fun _ => rfl) (fun _ => rfl)
          hkeyed fun r hs hk hr => ?_
        obtain ⟨hs', hk', _⟩ := memoryAt_iff.mp hr
        exact hne.elim (fun h => absurd (hs.symm.trans hs') h) fun h => absurd (hk.symm.trans hk') h
      have hnew : points (updateWhere (memoryAt call.scopeKey memoryId revision)
            (MemoryRecord.retired (pyStrip supersededBy) call.now) rows) call.scopeKey memoryId
          = some (some (pyStrip supersededBy)) :=
        (points_iff hunique'.1).mpr ⟨_, mem_updateWhere_of hold hat, hscope, hid, rfl⟩
      have hexists : (points rows call.scopeKey (pyStrip supersededBy)).isSome := by
        rw [← hsscope, ← hsid]
        exact isSome_points hkeyed hsuccessor
      rw [resolvable_iff h fun s hs k => hother s k (.inl hs),
        (h call.scopeKey).redirect_iff hexists (fun l hl => hother _ l (.inr hl)) hnew]
      simp only [KeepsTrust, Careful, hop]
      constructor
      · rintro ⟨hacyclic, htrust⟩ r hr hrat t ht htscope htid _ _
        refine ⟨hacyclic, htrust r hr (memoryAt_iff.mp hrat).1 (memoryAt_iff.mp hrat).2.1 t ht
          htscope ?_⟩
        rw [htid]
        rfl
      · intro hcareful
        have hsound := hcareful old hold hat successor hsuccessor hsscope hsid hblank hself
        refine ⟨hsound.1, fun r hr _ hrid t ht _ htid => ?_⟩
        rw [hkeyed.unique hr hold (hrid.trans hid.symm),
          hkeyed.unique ht hsuccessor ((Option.some.inj htid).symm.trans hsid.symm)]
        exact hsound.2

/-! ## Runs -/

/-- **Superseded memories stay resolvable** in every run of careful calls, and
where such a run has come to, a call keeps them so, and lowers no trust,
exactly if it is careful. -/
theorem superseded_resolvable {log : List (MemoryCall × Except MemoryError (Option MemoryRecord))}
    (h : Run step (fun _ rows call => Careful rows call) [] log rows) :
    Resolvable rows ∧ ∀ call,
      (Resolvable (step rows call).2 ∧ KeepsTrust rows call (step rows call).1 ↔
        Careful rows call) := by
  have hsound : MemoriesUnique rows ∧ Resolvable rows := by
    refine h.invariant (P := fun _ rows => MemoriesUnique rows ∧ Resolvable rows) ⟨by decide, ?_⟩ ?_
    · intro scope k hk
      cases hk
    · rintro log rows call _ hcareful ⟨hunique, hresolves⟩
      exact ⟨(step_effect hunique call).2, ((step_keeps_iff hunique hresolves).mpr hcareful).1⟩
  exact ⟨hsound.2, fun call => step_keeps_iff hsound.1 hsound.2⟩

/-- A memory that is somewhere else now. -/
def caveNote (source : MemorySource) (title : String) : MemoryDraft where
  kind := .episodic
  source := source
  title := title
  content := "iron at y 12"
  subjectKey := ""
  evidenceRef := "observation:1"
  dimension := none
  point := none
  region := none

/-- Two memories, and the first retired in favour of the second. -/
def retireFirst (first second : MemorySource) : List MemoryCall :=
  [⟨"s", 0, .create (caveNote first "cave") [] "a"⟩,
   ⟨"s", 1, .create (caveNote second "mine") [] "b"⟩,
   ⟨"s", 2, .supersede "a" "b" 1⟩]

/-- A memory a player told of is retired in favour of an observed one. -/
theorem superseded_resolvable_retired :
    ∃ log rows, Run step (fun _ rows call => Careful rows call) [] log rows ∧
      points rows "s" "a" = some (some "b") ∧ Resolvable rows := by
  have hrun : Run step (fun _ rows call => Careful rows call) [] _
      (exec step [] ((retireFirst .playerTold .observed).take 2)).2 :=
    (Run.start.next _ trivial).next _ trivial
  generalize hrows : (exec step [] ((retireFirst .playerTold .observed).take 2)).2 = rows at hrun
  have hroot : points rows "s" "b" = some none := by rw [← hrows]; decide
  have htrust : ∀ r ∈ rows, r.memoryId = "a" → ∀ t ∈ rows, t.memoryId = "b" →
      r.source.rank ≤ t.source.rank := by
    rw [← hrows]
    decide
  have hlast := hrun.next ⟨"s", 2, .supersede "a" "b" 1⟩ (by
    intro r hr hat t ht _ htid _ _
    refine ⟨fun hback => ?_, htrust r hr (memoryAt_iff.mp hat).2.1 t ht htid⟩
    exact absurd (hback.eq_of_root hroot) (by decide))
  refine ⟨_, _, hlast, ?_, (superseded_resolvable hlast).1⟩
  rw [← hrows]
  decide

/-- Three ways to lose a retired memory: two memories retired in favour of each
other, a replacement that is deleted, and one that ranks below. -/
theorem superseded_lost :
    (∃ log rows, Run step (fun _ _ _ => True) [] log rows ∧
      (points rows "s" "a").isSome ∧ ∀ k, ¬ Resolves (points rows "s") "a" k) ∧
    (∃ log rows, Run step (fun _ _ _ => True) [] log rows ∧
      (points rows "s" "a").isSome ∧ ∀ k, ¬ Resolves (points rows "s") "a" k) ∧
    ∃ log rows call, Run step (fun _ _ _ => True) [] log rows ∧
      ¬ KeepsTrust rows call (step rows call).1 := by
  refine ⟨⟨_, _, .of_inputs (retireFirst .observed .observed ++ [⟨"s", 3, .supersede "b" "a" 1⟩])
      fun _ _ _ _ => trivial, by decide, fun k hk => ?_⟩,
    ⟨_, _, .of_inputs (retireFirst .observed .observed ++ [⟨"s", 3, .delete "b" 1⟩])
      fun _ _ _ _ => trivial, by decide, fun k hk => ?_⟩,
    ⟨_, _, ⟨"s", 2, .supersede "a" "b" 1⟩,
      .of_inputs ((retireFirst .observed .selfInferred).take 2) fun _ _ _ _ => trivial, ?_⟩⟩
  · have hab : points (exec step [] (retireFirst .observed .observed ++
        [⟨"s", 3, .supersede "b" "a" 1⟩])).2 "s" "a" = some (some "b") := by decide
    exact hk.no_return hab (.single (by decide))
  · have hab : points (exec step [] (retireFirst .observed .observed ++
        [⟨"s", 3, .delete "b" 1⟩])).2 "s" "a" = some (some "b") := by decide
    exact absurd (hk.next hab).isSome (by decide)
  · decide

end MemoryStore

end MineBot
