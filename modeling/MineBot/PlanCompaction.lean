import MineBot.EnsureVerdict
import MineBot.PlanExecution

/-!
# Compacting what the planner emits

The plans the planner emits are such that the comparison of
`PlanExecution` applies: steps of one key that follow each other collect
along one route, and a step that asks for a new plan is the last one,
after something that is not of its key (there is no log yet).

What is left is the recipe that uses up what it makes, and the fuel that
is smelted with itself.
-/

namespace MineBot

namespace Acquisition

section Emitted

variable (lower : String → String)

/-- Every ingredient is given under a name that is in normal form once it
has been normalized. -/
def PlainRecipes (recipeLookup : RecipeLookup) : Prop :=
  ∀ item variants, recipeLookup item = some variants → ∀ variant ∈ variants,
    ∀ group ∈ variant.ingredientGroups, ∀ option ∈ group, option ≠ "" →
      normalizeItem lower (normalizeItem lower option) = normalizeItem lower option ∧
        normalizeItem lower option ≠ ""

/-- A collect step that does not ask for a new plan is along a route. -/
def Routed (step : AcquisitionStep) : Prop :=
  ∀ inventoryItem blockTypes drops tier family,
    step.detail = .collect inventoryItem blockTypes drops tier false family →
      ∃ entry ∈ collectRoutes, entry.2.collectItem = step.item ∧
        entry.2.inventoryItem = inventoryItem

/-- What a step of an undeferred plan is like. -/
structure Plain (step : AcquisitionStep) : Prop where
  routed : Routed step
  named : Named lower step
  replan : step.replanAfter = false

/-- A step that collects logs. -/
def CollectsLogs (step : AcquisitionStep) : Prop :=
  step.item = "logs" ∧ ∃ inventoryItem blockTypes drops tier replan family,
    step.detail = .collect inventoryItem blockTypes drops tier replan family

/-- The plan of a planner: plain steps, and a last one that asks for a new
plan once it is deferred. After logs were collected there are some. -/
structure Emitted (p : Planner) : Prop where
  chain : p.steps.IsChain Follows
  named : ∀ step ∈ p.steps, Named lower step
  plain : p.deferred = false → ∀ step ∈ p.steps, Plain lower step
  logs : p.deferred = false → ∀ step, p.steps.getLast? = some step → CollectsLogs step →
    0 < held p.counts "oak_log"

/-- A resolution that ends in an emitted plan, if it ends in a plan. -/
def Emits : Resolution → Prop
  | .ok p => Emitted lower p
  | .error _ => True

/-- Every resolution of the resolver goes on with an emitted plan. -/
def EmittingResolver (resolve : Resolver) : Prop :=
  ∀ item count chain p, p.deferred = false → Emitted lower p →
    Emits lower (resolve item count chain p)

end Emitted

section Planner

variable {lower : String → String} {p q : Planner} {step : AcquisitionStep}

/-- A plain step, with counts that hold a log if it collects logs. -/
theorem Emitted.addStep (h : Emitted lower p) (hp : p.deferred = false)
    (hsteps : q.steps = p.steps ++ [step]) (hstep : Plain lower step)
    (hlast : ∀ last, p.steps.getLast? = some last → Follows last step)
    (hlogs : CollectsLogs step → 0 < held q.counts "oak_log") : Emitted lower q := by
  have hmem : ∀ other ∈ q.steps, Plain lower other := by
    intro other hother
    rw [hsteps, List.mem_append, List.mem_singleton] at hother
    rcases hother with hold | rfl
    · exact h.plain hp other hold
    · exact hstep
  refine ⟨?_, fun other hother => (hmem other hother).named, fun _ => hmem, fun _ last hend => ?_⟩
  · rw [hsteps]
    refine h.chain.append (List.isChain_singleton _) fun last hend next hnext => ?_
    cases hnext
    exact hlast last hend
  · rw [hsteps, List.getLast?_append, List.getLast?_singleton] at hend
    cases hend
    exact hlogs

/-- Steps of one key that are not collected have the item, and never ask
for a new plan. -/
theorem follows_of_not_collect {last : AcquisitionStep}
    (h : ∀ inventoryItem blockTypes drops tier replan family,
      step.detail ≠ .collect inventoryItem blockTypes drops tier replan family) :
    Follows last step := by
  intro hkey
  unfold sameKey at hkey
  unfold AcquisitionStep.replanAfter AcquisitionStep.makes
  cases hs : step.detail with
  | collect => exact absurd hs (h _ _ _ _ _ _)
  | _ => cases hl : last.detail <;> simp_all

theorem not_collectsLogs {detail : StepDetail} {item : String} {count : Nat}
    (h : ∀ inventoryItem blockTypes drops tier replan family,
      detail ≠ .collect inventoryItem blockTypes drops tier replan family) :
    ¬ CollectsLogs ⟨item, count, detail⟩ :=
  fun ⟨_, _, _, _, _, _, _, hdetail⟩ => h _ _ _ _ _ _ hdetail

theorem routes_agree : ∀ entry ∈ collectRoutes, ∀ entry' ∈ collectRoutes,
    entry.2.collectItem = entry'.2.collectItem →
      entry.2.inventoryItem = entry'.2.inventoryItem := by
  decide +kernel

theorem routes_logs : ∀ entry ∈ collectRoutes, entry.2.collectItem = "logs" →
    entry.2.inventoryItem = "oak_log" := by
  decide +kernel

theorem Emitted.collect (h : Emitted lower p) (hp : p.deferred = false) {item : String}
    {route : CollectRoute} (hroute : (item, route) ∈ collectRoutes) (missing : Nat)
    (tier : Option String) : Emitted lower (p.collect route missing tier) := by
  rw [Planner.collect]
  split
  · exact h
  · next hmissing =>
      refine h.addStep hp rfl ⟨?_, ?_, rfl⟩ (fun last hend hkey => ?_) fun hcollects => ?_
      · rintro _ _ _ _ _ ⟨⟩
        exact ⟨_, hroute, rfl, rfl⟩
      · intro _ _ _ _ hdetail
        cases hdetail
      · -- the last step is collected along a route with the same item
        have hplain := h.plain hp last (List.mem_of_getLast? hend)
        obtain ⟨hitem, hdetails⟩ := (Bool.and_eq_true _ _).mp hkey
        have hreplan := hplain.replan
        cases hdetail : last.detail with
        | collect inventoryItem blockTypes drops tier' replan family =>
            simp only [AcquisitionStep.replanAfter, hdetail] at hreplan
            subst hreplan
            obtain ⟨entry, hentry, hcollect, hinventory⟩ := hplain.routed _ _ _ _ _ hdetail
            have hagree := routes_agree entry hentry _ hroute
              (hcollect.trans (of_decide_eq_true hitem))
            refine ⟨hplain.replan, rfl, ?_⟩
            simp only [AcquisitionStep.makes, hdetail]
            rw [← hinventory, hagree]
        | _ => simp [hdetail] at hdetails
      · have hinventory : route.inventoryItem = "oak_log" := routes_logs _ hroute hcollects.1
        simp only [Planner.gain]
        rw [held_set, if_pos hinventory.symm]
        omega

theorem Emitted.smelt (h : Emitted lower p) (hp : p.deferred = false) (item : String)
    (crafts : Nat) (route : SmeltRoute) (fuel : String × Nat) :
    Emitted lower (p.smelt item crafts route fuel) := by
  refine h.addStep hp rfl ⟨nofun, nofun, rfl⟩ (fun last _ => ?_) fun hlogs => ?_
  · exact follows_of_not_collect nofun
  · exact absurd hlogs (not_collectsLogs nofun)

theorem Emitted.equip (h : Emitted lower p) (hp : p.deferred = false) (toolItem tier item : String) :
    Emitted lower (p.addStep toolItem 1 (.equip tier item)) := by
  refine h.addStep hp rfl ⟨nofun, nofun, rfl⟩ (fun last _ => ?_) fun hlogs => ?_
  · exact follows_of_not_collect nofun
  · exact absurd hlogs (not_collectsLogs nofun)

theorem Emitted.craft (h : Emitted lower p) (hp : p.deferred = false) (item : String)
    (crafts : Nat) (variant : RecipeVariant) {required : Dict String Nat}
    (hrequired : PlainCounts lower required) :
    Emitted lower (p.craft item crafts variant required) := by
  refine h.addStep hp (steps_foldl_consume _ _) ⟨nofun, ?_, rfl⟩ (fun last _ => ?_) fun hlogs => ?_
  · rintro _ _ _ _ ⟨⟩
    exact hrequired
  · exact follows_of_not_collect nofun
  · exact absurd hlogs (not_collectsLogs nofun)

/-- With a log there is a plank to prefer. -/
theorem preferredPlank_of_log {counts : Counts} (h : 0 < held counts "oak_log") :
    preferredPlank counts ≠ none := by
  unfold preferredPlank
  intro hnone
  have hoak : "oak_planks" ∈ plankItems := by decide
  have hlog : Dict.get? plankFromLog "oak_planks" = some "oak_log" := by decide
  cases hbest : plankItems.argmax fun plank =>
      held counts plank + ((Dict.get? plankFromLog plank).map (held counts)).getD 0 * 4 with
  | none => exact absurd (List.argmax_eq_none.mp hbest) (by decide)
  | some best =>
      have hle := List.le_of_mem_argmax hoak hbest
      rw [hlog, Option.map_some, Option.getD_some] at hle
      simp only [hbest] at hnone
      rw [Option.filter_some] at hnone
      split at hnone
      · cases hnone
      · next hzero =>
          simp only [decide_eq_true_eq] at hzero
          omega

/-- The step that collects some wood and then asks for a new plan. -/
theorem Emitted.family (h : Emitted lower p) (hp : p.deferred = false)
    (hpreferred : preferredPlank p.counts = none) (count : Nat) :
    Emitted lower { p.addStep "logs" count
      (.collect "logs" logItems logItems none true (some "planks")) with deferred := true } := by
  refine ⟨?_, fun other hother => ?_, nofun, nofun⟩
  · refine h.chain.append (List.isChain_singleton _) fun last hend next hnext hkey => ?_
    cases hnext
    -- a step of its key collects logs, and then there is a plank to prefer
    have hcollects : CollectsLogs last := by
      obtain ⟨hitem, hdetails⟩ := (Bool.and_eq_true _ _).mp hkey
      refine ⟨of_decide_eq_true hitem, ?_⟩
      cases hdetail : last.detail with
      | collect => exact ⟨_, _, _, _, _, _, rfl⟩
      | _ => simp [hdetail] at hdetails
    exact absurd hpreferred (preferredPlank_of_log (h.logs hp last hend hcollects))
  · rcases List.mem_append.mp hother with hold | hnew
    · exact h.named other hold
    · rw [List.mem_singleton.mp hnew]
      exact nofun

end Planner

/-! ## Each kind of item -/

section Resolvers

variable {lower : String → String} {resolve : Resolver} {p : Planner}

/-- A nested call comes first. -/
theorem EmittingResolver.unlessDeferred (h : EmittingResolver lower resolve)
    (hp : p.deferred = false) (hemitted : Emitted lower p) (item : String) (count : Nat)
    (chain : List String) {next : Planner → Resolution}
    (hnext : ∀ p', p'.deferred = false → Emitted lower p' → Emits lower (next p')) :
    Emits lower (unlessDeferred (resolve item count chain p) next) := by
  have hcall := h item count chain p hp hemitted
  simp only [Acquisition.unlessDeferred]
  cases hout : resolve item count chain p with
  | error e => trivial
  | ok p' =>
      rw [hout] at hcall
      simp only
      split
      · exact hcall
      · next hd => exact hnext p' (Bool.eq_false_iff.mpr hd) hcall

theorem resolveCollect_emits (h : EmittingResolver lower resolve) (hp : p.deferred = false)
    (hemitted : Emitted lower p) {item : String} {route : CollectRoute}
    (hroute : Dict.get? collectRoutes item = some route) (count : Nat) (chain : List String) :
    Emits lower (resolveCollect lower resolve item count route chain p) := by
  have hmem := Dict.mem_of_get? hroute
  simp only [resolveCollect]
  cases strongestRequiredTier lower route.blockTypes with
  | none => exact hemitted.collect hp hmem _ none
  | some tier =>
      simp only
      split
      · exact hemitted.collect hp hmem _ (some tier)
      · refine h.unlessDeferred hp hemitted _ _ _ fun p' hp' hemitted' => ?_
        split
        · trivial
        · split
          · exact (hemitted'.equip hp' _ tier item).collect hp' hmem _ (some tier)
          · exact hemitted'.collect hp' hmem _ (some tier)

theorem resolvePlankFamily_emits (h : EmittingResolver lower resolve) (hp : p.deferred = false)
    (hemitted : Emitted lower p) (count : Nat) (chain : List String) :
    Emits lower (resolvePlankFamily resolve count chain p) := by
  rw [resolvePlankFamily]
  cases hplank : preferredPlank p.counts with
  | none => exact hemitted.family hp hplank _
  | some plank => exact h plank count _ p hp hemitted

theorem resolveFuel_emits (h : EmittingResolver lower resolve) (hp : p.deferred = false)
    (hemitted : Emitted lower p) (item : String) (count crafts : Nat) (route : SmeltRoute)
    (chain : List String) : Emits lower (resolveFuel resolve item count crafts route chain p) := by
  simp only [resolveFuel]
  split
  · exact hemitted.smelt hp ..
  · refine h.unlessDeferred hp hemitted _ _ _ fun p' hp' hemitted' => ?_
    split
    · exact hemitted'.smelt hp' ..
    · trivial

theorem resolveSmelt_emits (h : EmittingResolver lower resolve) (hp : p.deferred = false)
    (hemitted : Emitted lower p) (item : String) (count : Nat) (route : SmeltRoute)
    (chain : List String) : Emits lower (resolveSmelt resolve item count route chain p) := by
  simp only [resolveSmelt]
  split
  · exact hemitted
  · refine h.unlessDeferred hp hemitted _ _ _ fun p' hp' hemitted' => ?_
    split
    · exact h.unlessDeferred hp' hemitted' _ _ _ fun _ hq hemitted =>
        resolveFuel_emits h hq hemitted ..
    · exact resolveFuel_emits h hp' hemitted' ..

theorem resolveEach_emits (h : EmittingResolver lower resolve) (chain : List String)
    (required : Dict String Nat) (hp : p.deferred = false) (hemitted : Emitted lower p) :
    Emits lower (resolveEach resolve chain required p) := by
  induction required generalizing p with
  | nil => exact hemitted
  | cons entry required ih =>
      exact h.unlessDeferred hp hemitted _ _ _ fun p' hp' hemitted' => ih hp' hemitted'

theorem settleRequirements_emits (h : EmittingResolver lower resolve) (item : String)
    (count : Nat) (chain : List String) (crafts : Nat) (variant : RecipeVariant) (passes : Nat)
    {required : Dict String Nat} (hrequired : PlainCounts lower required)
    (hp : p.deferred = false) (hemitted : Emitted lower p) :
    Emits lower (settleRequirements resolve item count chain crafts variant passes required p) := by
  induction passes generalizing p required with
  | zero => trivial
  | succ passes ih =>
      have hcall := resolveEach_emits h (chain ++ [item]) (required.insertionSort fun e e' =>
        toLex (ingredientPriority e.1, e.1) ≤ toLex (ingredientPriority e'.1, e'.1)) hp hemitted
      simp only [settleRequirements, resolveRequirements, unlessDeferred]
      cases hout : resolveEach resolve (chain ++ [item]) (required.insertionSort fun e e' =>
        toLex (ingredientPriority e.1, e.1) ≤ toLex (ingredientPriority e'.1, e'.1)) p with
      | error e => trivial
      | ok p' =>
          rw [hout] at hcall
          simp only
          split
          · exact hcall
          · next hd =>
              have hp' := Bool.eq_false_iff.mpr hd
              split
              · exact hcall.craft hp' item crafts variant hrequired
              · refine ih ⟨fun entry hentry => ?_, ?_⟩ hp' hcall
                · exact hrequired.1 entry (List.mem_of_mem_filter hentry)
                · exact hrequired.2.sublist (List.filter_sublist.map _)

/-- The options of an ingredient group that are chosen. -/
theorem selectOption_plain (hlower : Lowers lower) {counts selected : Counts}
    {preferred : Option String} {group : List String} {option : String}
    (hgroup : ∀ option ∈ group, option ≠ "" →
      normalizeItem lower (normalizeItem lower option) = normalizeItem lower option ∧
        normalizeItem lower option ≠ "")
    (h : selectOption lower counts selected preferred group = some option) :
    normalizeItem lower option = option ∧ option ≠ "" := by
  simp only [selectOption] at h
  split at h
  · cases h
  · split at h
    · cases h
      exact ⟨normalizeItem_of_letters hlower (List.forall_iff_forall_mem.mp (by decide)), by decide⟩
    · obtain ⟨raw, hraw, rfl⟩ := List.mem_map.mp (List.argmin_mem h)
      obtain ⟨hmem, hne⟩ := List.mem_filter.mp hraw
      exact hgroup raw hmem (of_decide_eq_true hne)

theorem selectRequirements_plain (hlower : Lowers lower) {variant : RecipeVariant}
    (hvariant : ∀ group ∈ variant.ingredientGroups, ∀ option ∈ group, option ≠ "" →
      normalizeItem lower (normalizeItem lower option) = normalizeItem lower option ∧
        normalizeItem lower option ≠ "") (crafts : Nat) (counts : Counts)
    (preferred : Option String) :
    PlainCounts lower (selectRequirements lower variant crafts counts preferred) := by
  have hsort : ∀ selected : Counts, PlainCounts lower selected →
      PlainCounts lower (selected.insertionSort fun e e' => e.1 ≤ e'.1) := by
    rintro selected ⟨hnames, hnodup⟩
    have hperm := List.perm_insertionSort (fun e e' : String × Nat => e.1 ≤ e'.1) selected
    exact ⟨fun entry hentry => hnames entry (hperm.mem_iff.mp hentry),
      ((hperm.map _).nodup_iff).mpr hnodup⟩
  refine hsort _ (List.foldlRecOn _ _ ?_ fun selected hselected group hgroup => ?_)
  · exact ⟨fun entry hentry => absurd hentry List.not_mem_nil, List.nodup_nil⟩
  · cases hoption : selectOption lower counts selected preferred group with
    | none => exact hselected
    | some option =>
        have hplain := selectOption_plain hlower (hvariant group hgroup) hoption
        refine ⟨fun entry hentry => ?_, Dict.nodup_set hselected.2 _ _⟩
        rcases Dict.mem_of_mem_set hentry with rfl | hentry
        · exact hplain
        · exact hselected.1 entry hentry

theorem resolveCraft_emits (hlower : Lowers lower) (h : EmittingResolver lower resolve)
    (hp : p.deferred = false) (hemitted : Emitted lower p) (maxDepth : Nat)
    (preferred : Option String) (item : String) (count : Nat) {variants : List RecipeVariant}
    (hvariants : ∀ variant ∈ variants, ∀ group ∈ variant.ingredientGroups, ∀ option ∈ group,
      option ≠ "" →
        normalizeItem lower (normalizeItem lower option) = normalizeItem lower option ∧
          normalizeItem lower option ≠ "") (chain : List String) :
    Emits lower (resolveCraft lower maxDepth preferred resolve item count variants chain p) := by
  simp only [resolveCraft]
  split
  · exact hemitted
  · split
    · trivial
    · next variant hchosen =>
        have hmem : variant ∈ variants := (List.mem_filter.mp (List.argmin_mem hchosen)).1
        have hrequired := selectRequirements_plain hlower (hvariants variant hmem)
        split
        · exact h.unlessDeferred hp hemitted _ _ _ fun p' hp' hemitted' =>
            settleRequirements_emits h _ _ _ _ _ _ (hrequired ..) hp' hemitted'
        · exact settleRequirements_emits h _ _ _ _ _ _ (hrequired ..) hp hemitted

/-- A resolution goes on with an emitted plan. The induction is on how many
calls may still be nested. -/
theorem resolve_emits (hlower : Lowers lower) {recipeLookup : RecipeLookup}
    (hrecipes : PlainRecipes lower recipeLookup) (maxDepth : Nat) (preferred : Option String)
    (depth : Nat) :
    EmittingResolver lower (Acquisition.resolve lower recipeLookup maxDepth preferred depth) := by
  induction depth with
  | zero =>
      intro item count chain p hp hemitted
      simp only [Acquisition.resolve]
      split
      · exact hemitted
      · trivial
  | succ depth ih =>
      intro item count chain p hp hemitted
      simp only [Acquisition.resolve]
      split
      · exact hemitted
      · split
        · trivial
        · split
          · exact resolvePlankFamily_emits ih hp hemitted count chain
          · split
            · next route hroute => exact resolveCollect_emits ih hp hemitted hroute count chain
            · split
              · exact resolveSmelt_emits ih hp hemitted ..
              · split
                · trivial
                · trivial
                · next variants hlookup =>
                    exact resolveCraft_emits hlower ih hp hemitted maxDepth preferred _ count
                      (hrecipes _ _ hlookup) chain

end Resolvers

/-- Compacting a plan that the planner emits preserves its meaning, from a
stock where the plan can be executed, if and only if the plan is stocked:
the compacted plan can be executed, ends with the same stock, and stops
for replanning where the plan does. -/
theorem compaction_preserves {lower : String → String} (hlower : Lowers lower)
    {recipeLookup : RecipeLookup} (hrecipes : PlainRecipes lower recipeLookup) (maxDepth : Nat)
    (item : String) (count : Nat) (counts : Counts) (p : Planner)
    (h : resolve lower recipeLookup maxDepth (preferredPlank (normalizeCounts lower counts)) maxDepth
      (normalizeItem lower item) count [] ⟨normalizeCounts lower counts, false, []⟩ = .ok p)
    (stock stock' : Stock) (stop : Option (List AcquisitionStep))
    (hexec : executePlan p.steps stock = some (stock', stop)) :
    executePlan (compactSteps lower p.steps) stock
        = some (stock', stop.map (compactSteps lower)) ↔ Stocked p.steps stock := by
  have hempty : Emitted lower ⟨normalizeCounts lower counts, false, []⟩ :=
    ⟨List.IsChain.nil, nofun, nofun, nofun⟩
  have hemits := resolve_emits hlower hrecipes maxDepth
    (preferredPlank (normalizeCounts lower counts)) maxDepth (normalizeItem lower item) count [] _
    rfl hempty
  rw [h] at hemits
  exact executePlan_compactSteps hemits.chain hemits.named hexec

/-! ## A recipe that uses up what it makes -/

/-- A culture grows to five, dough takes six, and bread takes dough and two
more. -/
def cultureTable : Dict String (List RecipeVariant) :=
  [("culture", [⟨"culture", 5, [["culture"]], false, "crafting"⟩]),
   ("dough", [⟨"dough", 1, List.replicate 6 ["culture"], false, "crafting"⟩]),
   ("bread", [⟨"bread", 1, [["culture"], ["culture"], ["dough"]], false, "crafting"⟩])]

def cultureRecipes : RecipeLookup := Dict.get? cultureTable

theorem cultureRecipes_plain : PlainRecipes asciiLower cultureRecipes := by
  have htable : ∀ entry ∈ cultureTable, ∀ variant ∈ entry.2, ∀ group ∈ variant.ingredientGroups,
      ∀ option ∈ group, option ≠ "" →
        normalizeItem asciiLower (normalizeItem asciiLower option)
          = normalizeItem asciiLower option ∧ normalizeItem asciiLower option ≠ "" := by
    decide +kernel
  exact fun item variants hlookup => htable _ (Dict.mem_of_get? hlookup)

/-- The plan for a bread, with one culture. -/
def breadPlan : Resolution :=
  resolve asciiLower cultureRecipes 8 (preferredPlank (normalizeCounts asciiLower [("culture", 1)]))
    8 (normalizeItem asciiLower "bread") 1 [] ⟨normalizeCounts asciiLower [("culture", 1)], false, []⟩

/-- Cultures are grown twice, for the bread and for its dough. -/
def breadSteps : List AcquisitionStep :=
  [⟨"culture", 5, .craft "crafting" false 5 [("culture", 1)]⟩,
   ⟨"culture", 5, .craft "crafting" false 5 [("culture", 1)]⟩,
   ⟨"dough", 1, .craft "crafting" false 1 [("culture", 6)]⟩,
   ⟨"bread", 1, .craft "crafting" false 1 [("culture", 2), ("dough", 1)]⟩]

theorem breadPlan_steps : ∃ p, breadPlan = .ok p ∧ p.steps = breadSteps := by
  have hplan : breadPlan.toOption.map (·.steps) = some breadSteps := by decide +kernel
  cases hout : breadPlan with
  | error e =>
      rw [hout] at hplan
      cases hplan
  | ok p =>
      rw [hout] at hplan
      exact ⟨p, rfl, Option.some.inj hplan⟩

def cultures (count : Nat) : Stock := fun item => if item = "culture" then count else 0

theorem breadSteps_stocked : Stocked breadSteps (cultures 2) := by
  refine ⟨?_, fun grown hgrown _ => ?_⟩
  · rintro _ ⟨⟩
    decide
  obtain rfl := Option.some.inj hgrown
  refine ⟨?_, fun again hagain _ => ?_⟩
  · rintro _ ⟨⟩
    decide
  obtain rfl := Option.some.inj hagain
  refine ⟨?_, fun kneaded hkneaded _ => ?_⟩
  · rintro _ ⟨⟩
    decide
  obtain rfl := Option.some.inj hkneaded
  refine ⟨?_, fun _ _ _ => trivial⟩
  rintro _ ⟨⟩
  decide

/-- With two cultures the compacted plan can be executed as well. -/
theorem compaction_preserves_bread : ∃ stock',
    executePlan breadSteps (cultures 2) = some (stock', none) ∧
    executePlan (compactSteps asciiLower breadSteps) (cultures 2) = some (stock', none) := by
  obtain ⟨p, hp, hsteps⟩ := breadPlan_steps
  have hiff := compaction_preserves lowers_asciiLower cultureRecipes_plain 8 "bread" 1
    [("culture", 1)] p hp (cultures 2) _ none (by rw [hsteps]; rfl)
  rw [hsteps] at hiff
  exact ⟨_, rfl, hiff.mpr breadSteps_stocked⟩

/-- With one culture the plan can be executed and the compacted plan,
which takes two at once, cannot. -/
theorem compaction_impossible :
    (∃ p, breadPlan = .ok p ∧ p.steps = breadSteps) ∧
    (∃ stock', executePlan breadSteps (cultures 1) = some (stock', none)) ∧
    executePlan (compactSteps asciiLower breadSteps) (cultures 1) = none :=
  ⟨breadPlan_steps, ⟨_, rfl⟩, rfl⟩

end Acquisition

end MineBot
