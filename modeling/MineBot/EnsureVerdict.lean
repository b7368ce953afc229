import MineBot.AcquisitionPlans
import MineBot.EnsureItem

/-!
# The verdict of `ensure_item`

The planner counts a family by its members and the last read of
`ensure_item` counts the name it was given, so the two agree exactly where
the name stands for all the members there are.
-/

namespace MineBot

namespace Acquisition

/-! ## The verdict -/

section

variable {lower : String → String} {env : Environment lower} {recipeLookup : RecipeLookup}
variable {args : EnsureArgs} {st st' : Progress lower} {result : ToolResult}

theorem Inventory.plainCounts (inventory : Inventory lower) : PlainCounts lower inventory.counts :=
  ⟨inventory.plain, inventory.nodup⟩

/-- The reasons `ensure_item` returns with once there is no further step. -/
def endReasons : List String := ["ensured", "already_satisfied", "ensure_no_inventory_delta"]

theorem append_not_end {pre : String}
    (h : ∀ reason ∈ endReasons, pre.toList.isPrefixOf reason.toList = false) (detail : String) :
    pre ++ detail ∉ endReasons := by
  intro hmem
  have hnot := h _ hmem
  have hstart : pre.toList.isPrefixOf (pre ++ detail).toList = true := by
    rw [String.toList_append]
    exact List.isPrefixOf_iff_prefix.mpr (List.prefix_append _ _)
  rw [hstart] at hnot
  cases hnot

theorem stepFailed_not_end (reason : String) : "ensure_step_failed:" ++ reason ∉ endReasons :=
  append_not_end (by decide) reason

theorem readFailed_not_end (reason : String) : "inventory_read_failed:" ++ reason ∉ endReasons :=
  append_not_end (by decide) reason

theorem executeStep_returned {index : Nat} {step : AcquisitionStep}
    (h : executeStep env args index step st = (.returned result, st')) :
    result.reason ∉ endReasons := by
  rw [executeStep] at h
  split at h
  · obtain ⟨rfl⟩ := Ended.returned.inj (Prod.mk.inj h).1
    exact (by decide : "partial_budget_exhausted" ∉ endReasons)
  · split at h
    · obtain ⟨rfl⟩ := Ended.returned.inj (Prod.mk.inj h).1
      exact (by decide : "ensure_step_failed:inventory_read_failed" ∉ endReasons)
    · simp only at h
      split at h
      · obtain ⟨rfl⟩ := Ended.returned.inj (Prod.mk.inj h).1
        exact stepFailed_not_end _
      · split at h
        · obtain ⟨rfl⟩ := Ended.returned.inj (Prod.mk.inj h).1
          exact (by decide : "ensure_step_failed:inventory_read_failed" ∉ endReasons)
        · generalize (if step.isEquip then _ else _) = required at h
          split at h
          · obtain ⟨rfl⟩ := Ended.returned.inj (Prod.mk.inj h).1
            exact (by decide : "ensure_step_incomplete" ∉ endReasons)
          · cases (Prod.mk.inj h).1

theorem executeSteps_returned {steps : List AcquisitionStep} {index : Nat}
    (h : executeSteps env args index steps st = (.returned result, st')) :
    result.reason ∉ endReasons := by
  induction steps generalizing index st with
  | nil => cases (Prod.mk.inj h).1
  | cons step steps ih =>
      rw [executeSteps] at h
      split at h
      · next result' st₁ hstep =>
        obtain ⟨rfl⟩ := Ended.returned.inj (Prod.mk.inj h).1
        exact executeStep_returned hstep
      · cases (Prod.mk.inj h).1
      · exact ih h

variable (args) in
/-- The result reports the count of the item's name, and succeeds by it or by
the count of a whole family. -/
def Reports (result : ToolResult) (inventory : Inventory lower) : Prop :=
  result.currentCount = some (held inventory.counts args.item)
    ∧ result.remainingCount = some (args.count - held inventory.counts args.item)
    ∧ ((result.success = true ↔ args.count ≤ held inventory.counts args.item)
      ∨ (result.success = true ∧ args.count ≤ total inventory.counts
        (normalizeItem lower (normalizeItem lower args.item))))

theorem countOf_singleton (inventory : Inventory lower) (item : String) :
    countOf inventory [item] = held inventory.counts item := Nat.add_zero _

theorem readInventory_ok {inventory : Inventory lower}
    (h : readInventory env st = (.ok inventory, st')) : st'.lastRead = some inventory := by
  rw [readInventory] at h
  split at h
  · cases (Prod.mk.inj h).1
  · obtain ⟨hinventory, rfl⟩ := Prod.mk.inj h
    rw [Except.ok.inj hinventory]

theorem finish_reports (h : finish env args st = (result, st'))
    (hend : result.reason ∈ endReasons) :
    ∃ inventory, st'.lastRead = some inventory ∧ Reports args result inventory := by
  rw [finish] at h
  split at h
  · next reason st₁ hread =>
    obtain ⟨rfl, -⟩ := Prod.mk.inj h
    exact absurd hend (readFailed_not_end reason)
  · next inventory st₁ hread =>
    obtain ⟨rfl, rfl⟩ := Prod.mk.inj h
    refine ⟨inventory, readInventory_ok hread, ?_, ?_, .inl ?_⟩
    · rw [ensureResult, countOf_singleton]
    · rw [ensureResult, countOf_singleton]
      rfl
    · rw [ensureResult, countOf_singleton]
      exact decide_eq_true_iff

theorem withEquip_eq_nil {plan : List AcquisitionStep} (h : withEquip args plan = []) :
    plan = [] := by
  rw [withEquip] at h
  split at h
  · exact absurd h (List.append_ne_nil_of_right_ne_nil _ (List.cons_ne_nil _ _))
  · exact h

theorem planningResult_reason {e : AcquisitionError} (he : e.reason ∈ errorReasons) :
    (planningResult args e st).reason ∉ endReasons := by
  have herrors : ∀ reason ∈ errorReasons, reason ∉ endReasons := by decide
  rw [planningResult]
  simp only
  split
  · decide
  · exact herrors _ he

/-- One pass after the other, the loop ends with a report on the last inventory. -/
theorem ensureLoop_reports (hlower : Lowers lower) {fuel : Nat}
    (h : ensureLoop env recipeLookup args fuel st = some (result, st'))
    (hend : result.reason ∈ endReasons) :
    ∃ inventory, st'.lastRead = some inventory ∧ Reports args result inventory := by
  induction fuel generalizing st with
  | zero => cases h
  | succ fuel ih =>
      rw [ensureLoop] at h
      split at h
      · obtain ⟨rfl, -⟩ := Prod.mk.inj (Option.some.inj h)
        exact absurd hend (by decide : "partial_budget_exhausted" ∉ endReasons)
      · split at h
        · next reason st₂ hread =>
          obtain ⟨rfl, -⟩ := Prod.mk.inj (Option.some.inj h)
          exact absurd hend (readFailed_not_end reason)
        · next inventory st₂ hread =>
          split at h
          · next e hplan =>
            obtain ⟨rfl, -⟩ := Prod.mk.inj (Option.some.inj h)
            exact absurd hend (planningResult_reason (resolveAcquisition_error hlower hplan))
          · next plan hplan =>
            split at h
            · next hnil =>
              obtain ⟨rfl, rfl⟩ := Prod.mk.inj (Option.some.inj h)
              rw [withEquip_eq_nil hnil] at hplan
              have hplain := inventory.plainCounts
              have hcounts : ∀ item, held (normalizeCounts lower
                  (normalizeCounts lower inventory.counts)) item = held inventory.counts item := by
                intro item
                rw [held_normalizeCounts (plainCounts_normalizeCounts hplain),
                  held_normalizeCounts hplain]
              refine ⟨inventory, readInventory_ok hread, ?_, ?_, .inr ⟨rfl, ?_⟩⟩
              · rw [ensureResult, countOf_singleton]
              · rw [ensureResult, countOf_singleton]
                rfl
              · rw [← total_congr hcounts]
                exact le_total_of_plan_nil hlower hplan
            · split at h
              · next result' st₃ hsteps =>
                obtain ⟨rfl, -⟩ := Prod.mk.inj (Option.some.inj h)
                exact absurd hend (executeSteps_returned hsteps)
              · exact ih h
              · next st₃ hsteps =>
                exact finish_reports (Option.some.inj h) hend

/-- The verdict is right: success exactly if there is enough of the item, and
the reported counts are its count and the shortfall. -/
def VerdictAgrees (result : ToolResult) (inventory : Inventory lower) (item : String)
    (count : Nat) : Prop :=
  (result.success = true ↔ count ≤ total inventory.counts item)
    ∧ result.currentCount = some (total inventory.counts item)
    ∧ result.remainingCount = some (count - total inventory.counts item)

theorem Reports.agrees_iff {inventory : Inventory lower} (h : Reports args result inventory) :
    VerdictAgrees result inventory (normalizeItem lower (normalizeItem lower args.item)) args.count
      ↔ held inventory.counts args.item
        = total inventory.counts (normalizeItem lower (normalizeItem lower args.item)) := by
  obtain ⟨hcurrent, hremaining, hsuccess⟩ := h
  constructor
  · rintro ⟨-, hcurrent', -⟩
    exact Option.some.inj (hcurrent.symm.trans hcurrent')
  · intro heq
    rw [heq] at hcurrent hremaining hsuccess
    refine ⟨?_, hcurrent, hremaining⟩
    rcases hsuccess with hsuccess | ⟨hsuccess, hle⟩
    · exact hsuccess
    · exact iff_of_true hsuccess hle

/-- The requested item as the planner sees it. -/
def plannedItem (lower : String → String) (item : String) : String :=
  normalizeItem lower (normalizeItem lower (normalizeItem lower item))

/-- For every recipe lookup, item and environment, whenever `ensure_item` returns
after executing or finding no further step, its verdict is right exactly if the
last inventory counts under the item's own name what it counts over the members
of the item. -/
theorem verdict_agrees_iff (hlower : Lowers lower) {fuel : Nat} {item : String}
    {count : Option Int} {equipTarget reportMissingMaterials : Bool} {maxWallS : Rat}
    {last : Option (Inventory lower)}
    (h : ensureItem env recipeLookup fuel item count equipTarget reportMissingMaterials maxWallS
      = some (result, last)) (hend : result.reason ∈ endReasons) :
    ∃ inventory, last = some inventory ∧
      (VerdictAgrees result inventory (plannedItem lower item) (requestedCount count).toNat
        ↔ held inventory.counts (normalizeItem lower item)
          = total inventory.counts (plannedItem lower item)) := by
  rw [ensureItem] at h
  simp only at h
  split at h
  · obtain ⟨rfl, -⟩ := Prod.mk.inj (Option.some.inj h)
    exact absurd hend (by decide : "invalid_item" ∉ endReasons)
  · split at h
    · obtain ⟨rfl, -⟩ := Prod.mk.inj (Option.some.inj h)
      exact absurd hend (by decide : "invalid_count" ∉ endReasons)
    · obtain ⟨⟨result', st⟩, hloop, heq⟩ := Option.map_eq_some_iff.mp h
      obtain ⟨rfl, rfl⟩ := Prod.mk.inj heq
      obtain ⟨inventory, hlast, hreports⟩ := ensureLoop_reports hlower hloop hend
      exact ⟨inventory, hlast, hreports.agrees_iff⟩

end

/-! ### Planks and sticks -/

/-- `str.lower` on ASCII texts. -/
def asciiLower (text : String) : String := .ofList (text.toList.map Char.toLower)

theorem lowers_asciiLower : Lowers asciiLower := by
  intro text h
  have hmap : text.toList.map Char.toLower = text.toList := by
    rw [List.map_congr_left (g := id)]
    · exact List.map_id _
    · intro c hc
      have hlow : 95 ≤ c.toNat := by
        rcases Bool.or_eq_true_iff.mp (h c hc) with hc | hc
        · simp only [Char.isLower, Bool.and_eq_true, decide_eq_true_eq] at hc
          exact Nat.le_trans (by decide) (UInt32.le_iff_toNat_le.mp hc.1)
        · rw [beq_iff_eq.mp hc]
          decide
      rw [Char.toLower, dif_neg]
      · rfl
      · rintro ⟨-, hhigh⟩
        have hhigh : c.toNat ≤ 90 := UInt32.le_iff_toNat_le.mp hhigh
        omega
  rw [asciiLower, hmap, String.ofList_toList]

/-- An inventory of one item. -/
def pocket (item : String) (count : Nat) (h : normalizeItem asciiLower item = item ∧ item ≠ "") :
    Inventory asciiLower where
  counts := [(item, count)]
  plain := by
    intro entry hentry
    rw [List.mem_singleton.mp hentry]
    exact h
  nodup := List.nodup_singleton _

/-- A world in which nothing happens to the inventory. -/
def stillWorld (inventory : Inventory asciiLower) : Environment asciiLower :=
  ⟨fun _ => .ok inventory, fun _ => ⟨true, none, true⟩, fun _ => 0⟩

def sticks : Inventory asciiLower := pocket "stick" 5 (by decide)

def planks : Inventory asciiLower := pocket "oak_planks" 4 (by decide)

/-- Four planks are four planks, but the report says none. -/
theorem planks_denied : ∃ (result : ToolResult) (inventory : Inventory asciiLower),
    ensureItem (stillWorld planks) (fun _ => none) 1 "planks" (some 4) false false 60
      = some (result, some inventory)
    ∧ result.reason ∈ endReasons ∧ ¬ VerdictAgrees result inventory "planks" 4 := by
  refine ⟨_, _, rfl, ?_, ?_⟩
  · decide
  · rintro ⟨-, hcurrent, -⟩
    revert hcurrent
    decide

theorem verdict_agrees_sticks : ∃ (result : ToolResult) (inventory : Inventory asciiLower),
    ensureItem (stillWorld sticks) (fun _ => none) 1 "stick" (some 4) false false 60
      = some (result, some inventory) ∧ VerdictAgrees result inventory "stick" 4 := by
  obtain ⟨result, hensure, hend⟩ : ∃ result,
      ensureItem (stillWorld sticks) (fun _ => none) 1 "stick" (some 4) false false 60
        = some (result, some sticks) ∧ result.reason ∈ endReasons := ⟨_, rfl, by decide⟩
  obtain ⟨inventory, hlast, hiff⟩ := verdict_agrees_iff lowers_asciiLower hensure hend
  obtain rfl := Option.some.inj hlast
  exact ⟨result, sticks, hensure, hiff.mpr (by decide)⟩

end Acquisition

end MineBot
