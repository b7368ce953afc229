import Mathlib
import MineBot.Acquisition

/-!
# What a resolution adds

A call of the resolver returns an error, or it has added a step, or there is
enough of the item (`resolve_advances`): the induction is on how many calls
may still be nested. So an empty plan says that there is enough
(`le_total_of_plan_nil`), where a family counts by its members.
-/

namespace MineBot

namespace Acquisition

/-! ## Members of an item -/

/-- The names an item is counted under: the members of a family, and the name itself. -/
def members (item : String) : List String :=
  if item = "log" ∨ item = "logs" then item :: logItems
  else if item = "planks" then item :: plankItems
  else [item]

/-- How many there are of the item. -/
def total (counts : Counts) (item : String) : Nat := ((members item).map (held counts)).sum

theorem held_le_total (counts : Counts) (item : String) : held counts item ≤ total counts item := by
  have hmem : item ∈ members item := by
    rw [members]
    split
    · exact List.mem_cons_self
    · split <;> exact List.mem_cons_self
  exact List.le_sum_of_mem (List.mem_map_of_mem hmem)

theorem collectRoutes_members :
    ∀ entry ∈ collectRoutes, entry.2.expectedDrops <:+ members entry.1 := by
  decide

theorem expectedDrops_le_total (counts : Counts) {item : String} {route : CollectRoute}
    (h : Dict.get? collectRoutes item = some route) :
    (route.expectedDrops.map (held counts)).sum ≤ total counts item :=
  ((collectRoutes_members _ (Dict.mem_of_get? h)).sublist.map _).sum_le_sum fun _ _ => Nat.zero_le _

theorem plank_le_total (counts : Counts) {plank : String} (h : plank ∈ plankItems) :
    held counts plank ≤ total counts "planks" := by
  have hmem : plank ∈ members "planks" := List.mem_cons_of_mem _ h
  exact List.le_sum_of_mem (List.mem_map_of_mem hmem)

theorem mem_of_preferredPlank {counts : Counts} {plank : String}
    (h : preferredPlank counts = some plank) : plank ∈ plankItems := by
  rw [preferredPlank, Option.filter_eq_some_iff] at h
  exact List.argmax_mem h.1

/-! ## Names in normal form -/

/-- `str.lower` leaves a text of lower-case letters and underscores. -/
def Lowers (lower : String → String) : Prop :=
  ∀ text : String, (∀ c ∈ text.toList, (c.isLower || c == '_') = true) → lower text = text

theorem dropWhile_of_forall {α : Type*} {p : α → Bool} {l : List α} (h : ∀ a ∈ l, p a = false) :
    l.dropWhile p = l := by
  cases l with
  | nil => rfl
  | cons a l => rw [List.dropWhile_cons, h a List.mem_cons_self]; rfl

theorem isPySpace_of_letter {c : Char} (h : (c.isLower || c == '_') = true) :
    isPySpace c = false ∧ c ≠ ' ' ∧ c ≠ ':' := by
  rw [Bool.or_eq_true, beq_iff_eq] at h
  rcases h with h | rfl
  · simp only [Char.isLower, Bool.and_eq_true, decide_eq_true_eq] at h
    have hlow : 97 ≤ c.toNat := UInt32.le_iff_toNat_le.mp h.1
    have hhigh : c.toNat ≤ 122 := UInt32.le_iff_toNat_le.mp h.2
    refine ⟨?_, ?_, ?_⟩
    · rw [isPySpace]
      simp only [Bool.or_eq_false_iff, Bool.and_eq_false_iff, decide_eq_false_iff_not,
        beq_eq_false_iff_ne]
      omega
    · rintro rfl
      exact absurd hlow (by decide)
    · rintro rfl
      exact absurd hlow (by decide)
  · decide

theorem normalizeItem_of_letters {lower : String → String} (hlower : Lowers lower) {name : String}
    (h : ∀ c ∈ name.toList, (c.isLower || c == '_') = true) : normalizeItem lower name = name := by
  have hname : removePrefix name = name := by
    rw [removePrefix, if_neg]
    intro hpre
    have hcolon : ':' ∈ name.toList :=
      (List.isPrefixOf_iff_prefix.mp hpre).subset (by decide)
    exact (isPySpace_of_letter (h _ hcolon)).2.2 rfl
  have hstrip : pyStrip name = name := by
    rw [pyStrip, dropWhile_of_forall fun c hc => (isPySpace_of_letter (h c hc)).1,
      dropWhile_of_forall fun c hc => (isPySpace_of_letter (h c (List.mem_reverse.mp hc))).1,
      List.reverse_reverse, String.ofList_toList]
  rw [normalizeItem, plainName, hname, hstrip, hlower name h]
  have hmap : (name.toList.map fun c => if c = ' ' then '_' else c) = name.toList := by
    rw [List.map_congr_left (g := id)]
    · exact List.map_id _
    · intro c hc
      exact if_neg (isPySpace_of_letter (h c hc)).2.1
  rw [hmap, String.ofList_toList]

theorem plankItems_letters : ∀ plank ∈ plankItems, ∀ c ∈ plank.toList,
    (c.isLower || c == '_') = true := by
  have hall : (plankItems.all fun plank => plank.toList.all fun c => c.isLower || c == '_') = true := by
    decide +kernel
  intro plank hplank
  exact List.all_eq_true.mp (List.all_eq_true.mp hall plank hplank)

/-! ## Resolutions -/

def errorReasons : List String :=
  ["max_depth_exceeded", "recipe_cycle", "unplannable", "required_tool_unavailable",
   "fuel_unavailable", "recipe_not_found", "ingredient_resolution_failed"]

/-- A resolution from `p` fails, or it keeps the steps of `p` and adds one if it
defers or if `satisfied` does not hold. -/
def Advances (p : Planner) (satisfied : Prop) : Resolution → Prop
  | .ok p' => p.steps.length ≤ p'.steps.length
      ∧ (p'.deferred = true → p.steps.length < p'.steps.length)
      ∧ (p.steps.length < p'.steps.length ∨ satisfied)
  | .error e => e.reason ∈ errorReasons

section

variable {lower : String → String}

variable (lower) in
/-- Every resolution of the resolver that starts undeferred advances. -/
def AdvancingResolver (resolve : Resolver) : Prop :=
  ∀ item count chain p, p.deferred = false →
    Advances p (count ≤ total p.counts (normalizeItem lower item)) (resolve item count chain p)

variable {resolve : Resolver} {p p' : Planner}

theorem Advances.imp {satisfied satisfied' : Prop} {out : Resolution} (h : Advances p satisfied out)
    (himp : satisfied → satisfied') : Advances p satisfied' out := by
  cases out with
  | error e => exact h
  | ok p' => exact ⟨h.1, h.2.1, h.2.2.imp_right himp⟩

/-- What follows an undeferred resolution and adds a step. -/
theorem Advances.then {satisfied : Prop} {out : Resolution} (hle : p.steps.length ≤ p'.steps.length)
    (h : Advances p' False out) : Advances p satisfied out := by
  cases out with
  | error e => exact h
  | ok q =>
      obtain ⟨hle', hdeferred, hlt⟩ := h
      have hlt := hlt.resolve_right id
      exact ⟨by omega, fun _ => by omega, .inl (by omega)⟩

/-- A nested call comes first, and what follows it adds a step. -/
theorem AdvancingResolver.unlessDeferred (h : AdvancingResolver lower resolve)
    (hp : p.deferred = false) (item : String) (count : Nat) (chain : List String)
    {next : Planner → Resolution} {satisfied : Prop}
    (hnext : ∀ p', p'.deferred = false → p.steps.length ≤ p'.steps.length →
      Advances p' False (next p')) :
    Advances p satisfied (unlessDeferred (resolve item count chain p) next) := by
  have hcall := h item count chain p hp
  simp only [Acquisition.unlessDeferred]
  cases hout : resolve item count chain p with
  | error e =>
      rw [hout] at hcall
      exact hcall
  | ok p' =>
      rw [hout] at hcall
      obtain ⟨hle, hdeferred, -⟩ := hcall
      simp only
      split
      · next hd => exact ⟨hle, fun _ => hdeferred hd, .inl (hdeferred hd)⟩
      · next hd => exact (hnext p' (Bool.eq_false_iff.mpr hd) hle).then hle

theorem Advances.same (h : p.deferred = false) {satisfied : Prop} (hs : satisfied) :
    Advances p satisfied (.ok p) :=
  ⟨Nat.le_refl _, fun hd => absurd (h.symm.trans hd) Bool.false_ne_true, .inr hs⟩

theorem Advances.adds {satisfied : Prop} (h : p.steps.length < p'.steps.length) :
    Advances p satisfied (.ok p') :=
  ⟨Nat.le_of_lt h, fun _ => h, .inl h⟩

/-! ### What a resolved item adds -/

theorem length_steps_collect (p : Planner) (route : CollectRoute) (missing : Nat)
    (tier : Option String) : (p.collect route missing tier).steps.length
      = p.steps.length + if missing = 0 then 0 else 1 := by
  rw [Planner.collect]
  split
  · rfl
  · simp [Planner.gain, Planner.addStep]

theorem deferred_collect (p : Planner) (route : CollectRoute) (missing : Nat)
    (tier : Option String) : (p.collect route missing tier).deferred = p.deferred := by
  rw [Planner.collect]
  split <;> rfl

theorem length_steps_smelt (p : Planner) (item : String) (crafts : Nat) (route : SmeltRoute)
    (fuel : String × Nat) : (p.smelt item crafts route fuel).steps.length = p.steps.length + 1 := by
  simp [Planner.smelt, Planner.gain, Planner.consume, Planner.addStep]

theorem steps_foldl_consume (required : Dict String Nat) (p : Planner) :
    (required.foldl (fun p (ingredient, count) => p.consume ingredient count) p).steps
      = p.steps := by
  induction required generalizing p with
  | nil => rfl
  | cons e required ih =>
      rw [List.foldl_cons, ih]
      rfl

theorem length_steps_craft (p : Planner) (item : String) (crafts : Nat) (variant : RecipeVariant)
    (required : Dict String Nat) :
    (p.craft item crafts variant required).steps.length = p.steps.length + 1 := by
  rw [Planner.craft, Planner.gain, steps_foldl_consume, Planner.addStep]
  exact List.length_append

/-! ### Each kind of item -/

theorem resolveCollect_advances (h : AdvancingResolver lower resolve) (hp : p.deferred = false)
    {item : String} {count : Nat} (route : CollectRoute) (chain : List String)
    (hdrops : (route.expectedDrops.map (held p.counts)).sum ≤ total p.counts item) :
    Advances p (count ≤ total p.counts item)
      (resolveCollect lower resolve item count route chain p) := by
  have hcollect : ∀ (q : Planner) (tier : Option String), p.steps.length ≤ q.steps.length →
      q.deferred = false → Advances p (count ≤ total p.counts item)
        (.ok (q.collect route (count - (route.expectedDrops.map (held p.counts)).sum) tier)) := by
    intro q tier hle hq
    have hlength := length_steps_collect q route
      (count - (route.expectedDrops.map (held p.counts)).sum) tier
    refine ⟨by omega, fun hd => ?_, ?_⟩
    · rw [deferred_collect, hq] at hd
      cases hd
    · split at hlength
      · exact .inr (by omega)
      · exact .inl (by omega)
  simp only [resolveCollect]
  cases strongestRequiredTier lower route.blockTypes with
  | none => exact hcollect p none (Nat.le_refl _) hp
  | some tier =>
      simp only
      split
      · exact hcollect p (some tier) (Nat.le_refl _) hp
      · have hcall := h (pickaxeByTier tier) 1 (chain ++ [item]) p hp
        simp only [unlessDeferred]
        cases hout : resolve (pickaxeByTier tier) 1 (chain ++ [item]) p with
        | error e =>
            rw [hout] at hcall
            exact hcall
        | ok p' =>
            rw [hout] at hcall
            obtain ⟨hle, hdeferred, -⟩ := hcall
            simp only
            split
            · next hd => exact .adds (hdeferred hd)
            · next hd =>
              have hundeferred := Bool.eq_false_iff.mpr hd
              split
              · exact (by decide : "required_tool_unavailable" ∈ errorReasons)
              · split
                · refine hcollect (p'.addStep (pickaxeByTier tier) 1 (.equip tier item))
                    (some tier) ?_ hundeferred
                  rw [Planner.addStep, List.length_append]
                  omega
                · exact hcollect p' (some tier) hle hundeferred

theorem resolvePlankFamily_advances (hlower : Lowers lower) (h : AdvancingResolver lower resolve)
    (hp : p.deferred = false) (count : Nat) (chain : List String) :
    Advances p (count ≤ total p.counts "planks") (resolvePlankFamily resolve count chain p) := by
  rw [resolvePlankFamily]
  cases hplank : preferredPlank p.counts with
  | none =>
      refine .adds ?_
      rw [Planner.addStep, List.length_append]
      exact Nat.lt_succ_self _
  | some plank =>
      have hmem := mem_of_preferredPlank hplank
      have hcall := h plank count (chain ++ ["planks"]) p hp
      rw [normalizeItem_of_letters hlower (plankItems_letters plank hmem)] at hcall
      have htotal : total p.counts plank = held p.counts plank := by
        have hmembers : ∀ plank ∈ plankItems, members plank = [plank] := by decide
        rw [total, hmembers plank hmem]
        exact Nat.add_zero _
      refine hcall.imp fun hcount => ?_
      rw [htotal] at hcount
      exact Nat.le_trans hcount (plank_le_total p.counts hmem)

theorem resolveFuel_advances (h : AdvancingResolver lower resolve) (hp : p.deferred = false)
    (item : String) (count crafts : Nat) (route : SmeltRoute) (chain : List String) :
    Advances p False (resolveFuel resolve item count crafts route chain p) := by
  have hsmelt : ∀ (p : Planner) (fuel : String × Nat),
      Advances p False (.ok (p.smelt item crafts route fuel)) := by
    intro p fuel
    refine .adds ?_
    rw [length_steps_smelt]
    exact Nat.lt_succ_self _
  simp only [resolveFuel]
  split
  · exact hsmelt p _
  · refine h.unlessDeferred hp _ _ _ fun p _ _ => ?_
    split
    · exact hsmelt p _
    · exact (by decide : "fuel_unavailable" ∈ errorReasons)

theorem resolveSmelt_advances (h : AdvancingResolver lower resolve) (hp : p.deferred = false)
    (item : String) (count : Nat) (route : SmeltRoute) (chain : List String) :
    Advances p (count ≤ total p.counts item) (resolveSmelt resolve item count route chain p) := by
  simp only [resolveSmelt]
  split
  · next hmissing =>
    refine .same hp (Nat.le_trans ?_ (held_le_total p.counts item))
    omega
  · refine h.unlessDeferred hp _ _ _ fun p hp _ => ?_
    split
    · exact h.unlessDeferred hp _ _ _ fun p hp _ => resolveFuel_advances h hp ..
    · exact resolveFuel_advances h hp ..

theorem resolveEach_advances (h : AdvancingResolver lower resolve) (chain : List String)
    (required : Dict String Nat) (hp : p.deferred = false) :
    Advances p True (resolveEach resolve chain required p) := by
  induction required generalizing p with
  | nil => exact .same hp trivial
  | cons e required ih =>
      have hcall := h e.1 e.2 chain p hp
      simp only [resolveEach, unlessDeferred]
      cases hout : resolve e.1 e.2 chain p with
      | error e =>
          rw [hout] at hcall
          exact hcall
      | ok p' =>
          rw [hout] at hcall
          obtain ⟨hle, hdeferred, -⟩ := hcall
          simp only
          split
          · next hd => exact .adds (hdeferred hd)
          · next hd =>
            have hrest := ih (Bool.eq_false_iff.mpr hd)
            cases hresolved : resolveEach resolve chain required p' with
            | error e =>
                rw [hresolved] at hrest
                exact hrest
            | ok q =>
                rw [hresolved] at hrest
                exact ⟨by have := hrest.1; omega, fun hq => by have := hrest.2.1 hq; omega,
                  .inr trivial⟩

theorem settleRequirements_advances (h : AdvancingResolver lower resolve) (item : String)
    (count : Nat) (chain : List String) (crafts : Nat) (variant : RecipeVariant) (passes : Nat)
    (required : Dict String Nat) (hp : p.deferred = false) :
    Advances p False
      (settleRequirements resolve item count chain crafts variant passes required p) := by
  induction passes generalizing p required with
  | zero => exact (by decide : "ingredient_resolution_failed" ∈ errorReasons)
  | succ passes ih =>
      have hcall := resolveEach_advances h (chain ++ [item]) (required.insertionSort fun e e' =>
        toLex (ingredientPriority e.1, e.1) ≤ toLex (ingredientPriority e'.1, e'.1)) hp
      simp only [settleRequirements, resolveRequirements, unlessDeferred]
      cases hout : resolveEach resolve (chain ++ [item]) (required.insertionSort fun e e' =>
        toLex (ingredientPriority e.1, e.1) ≤ toLex (ingredientPriority e'.1, e'.1)) p with
      | error e =>
          rw [hout] at hcall
          exact hcall
      | ok p' =>
          rw [hout] at hcall
          obtain ⟨hle, hdeferred, -⟩ := hcall
          simp only
          split
          · next hd => exact .adds (hdeferred hd)
          · next hd =>
            split
            · refine .adds ?_
              rw [length_steps_craft]
              omega
            · exact (ih _ (Bool.eq_false_iff.mpr hd)).then hle

theorem resolveCraft_advances (h : AdvancingResolver lower resolve) (hp : p.deferred = false)
    (maxDepth : Nat) (preferred : Option String) (item : String) (count : Nat)
    (variants : List RecipeVariant) (chain : List String) :
    Advances p (count ≤ total p.counts item)
      (resolveCraft lower maxDepth preferred resolve item count variants chain p) := by
  simp only [resolveCraft]
  split
  · next hmissing =>
    refine .same hp (Nat.le_trans ?_ (held_le_total p.counts item))
    omega
  · split
    · exact (by decide : "recipe_not_found" ∈ errorReasons)
    · split
      · exact h.unlessDeferred hp _ _ _ fun p hp _ => settleRequirements_advances h _ _ _ _ _ _ _ hp
      · exact (settleRequirements_advances h _ _ _ _ _ _ _ hp).imp False.elim

/-- A resolution adds a step, unless there is enough of the item. -/
theorem resolve_advances (hlower : Lowers lower) (recipeLookup : RecipeLookup) (maxDepth : Nat)
    (preferred : Option String) (depth : Nat) :
    AdvancingResolver lower
      (Acquisition.resolve lower recipeLookup maxDepth preferred depth) := by
  induction depth with
  | zero =>
      intro item count chain p hp
      simp only [Acquisition.resolve]
      split
      · next hheld =>
        refine .same hp ?_
        have := held_le_total p.counts (normalizeItem lower item)
        omega
      · exact (by decide : "max_depth_exceeded" ∈ errorReasons)
  | succ depth ih =>
      intro item count chain p hp
      simp only [Acquisition.resolve]
      split
      · next hheld =>
        refine .same hp ?_
        have := held_le_total p.counts (normalizeItem lower item)
        omega
      · split
        · exact (by decide : "recipe_cycle" ∈ errorReasons)
        · split
          · next hplanks =>
            rw [hplanks]
            exact resolvePlankFamily_advances hlower ih hp count chain
          · split
            · next route hroute =>
              exact resolveCollect_advances ih hp route chain (expectedDrops_le_total _ hroute)
            · split
              · exact resolveSmelt_advances ih hp ..
              · split
                · exact (by decide : "unplannable" ∈ errorReasons)
                · exact (by decide : "unplannable" ∈ errorReasons)
                · exact resolveCraft_advances ih hp ..

end

/-! ## Plans -/

theorem compactFrom_ne_nil (lower : String → String) (last : AcquisitionStep)
    (steps : List AcquisitionStep) : compactFrom lower last steps ≠ [] := by
  induction steps generalizing last with
  | nil => exact List.cons_ne_nil _ _
  | cons step steps ih =>
      rw [compactFrom]
      split
      · exact ih _
      · exact List.cons_ne_nil _ _

/-- An empty plan is one for an item that there is enough of. -/
theorem le_total_of_plan_nil {lower : String → String} (hlower : Lowers lower)
    {recipeLookup : RecipeLookup} {maxDepth : Nat} {item : String} {count : Nat} {counts : Counts}
    (h : resolveAcquisition lower recipeLookup maxDepth item count counts = .ok []) :
    count ≤ total (normalizeCounts lower counts)
      (normalizeItem lower (normalizeItem lower item)) := by
  rw [resolveAcquisition] at h
  have hresolve := resolve_advances hlower recipeLookup maxDepth
    (preferredPlank (normalizeCounts lower counts)) maxDepth (normalizeItem lower item) count []
    ⟨normalizeCounts lower counts, false, []⟩ rfl
  split at h
  · cases h
  · next p hp =>
    rw [hp] at hresolve
    have hnil : p.steps = [] := by
      cases hsteps : p.steps with
      | nil => rfl
      | cons step steps =>
          rw [hsteps] at h
          exact absurd (Except.ok.inj h) (compactFrom_ne_nil lower step steps)
    refine hresolve.2.2.resolve_left ?_
    simp [hnil]

theorem resolveAcquisition_error {lower : String → String} (hlower : Lowers lower)
    {recipeLookup : RecipeLookup} {maxDepth : Nat} {item : String} {count : Nat} {counts : Counts}
    {e : AcquisitionError}
    (h : resolveAcquisition lower recipeLookup maxDepth item count counts = .error e) :
    e.reason ∈ errorReasons := by
  rw [resolveAcquisition] at h
  have hresolve := resolve_advances hlower recipeLookup maxDepth
    (preferredPlank (normalizeCounts lower counts)) maxDepth (normalizeItem lower item) count []
    ⟨normalizeCounts lower counts, false, []⟩ rfl
  split at h
  · next e' he =>
    rw [he] at hresolve
    obtain rfl := Except.error.inj h
    exact hresolve
  · cases h

/-! ## Counts of an inventory -/

section

variable {lower : String → String}

theorem held_set (counts : Counts) (item x : String) (n : Nat) :
    held (Dict.set counts item n) x = if x = item then n else held counts x := by
  rw [held, Dict.get?_set]
  split <;> rfl

theorem held_cons (item x : String) (n : Nat) (counts : Counts) :
    held ((item, n) :: counts) x = if item = x then n else held counts x := by
  rw [held, Dict.get?_cons]
  split <;> rfl

theorem held_of_not_mem {counts : Counts} {item : String} (h : item ∉ counts.map Prod.fst) :
    held counts item = 0 := by
  induction counts with
  | nil => rfl
  | cons e counts ih =>
      rw [List.map_cons, List.mem_cons, not_or] at h
      rw [held_cons, if_neg (Ne.symm h.1), ih h.2]

variable (lower) in
/-- Counts under distinct names in normal form. -/
def PlainCounts (counts : Counts) : Prop :=
  (∀ entry ∈ counts, normalizeItem lower entry.1 = entry.1 ∧ entry.1 ≠ "")
    ∧ (counts.map Prod.fst).Nodup

theorem held_normalizeCounts {counts : Counts} (h : PlainCounts lower counts) (item : String) :
    held (normalizeCounts lower counts) item = held counts item := by
  have hfold : ∀ (counts acc : Counts), PlainCounts lower counts →
      (∀ entry ∈ counts, held acc entry.1 = 0) →
      held (counts.foldl (fun normalized (rawItem, count) =>
        let item := normalizeItem lower rawItem
        if item ≠ "" ∧ 0 < count then Dict.set normalized item (held normalized item + count)
        else normalized) acc) item = held acc item + held counts item := by
    intro counts
    induction counts with
    | nil => exact fun acc _ _ => rfl
    | cons entry counts ih =>
        obtain ⟨name, n⟩ := entry
        intro acc hplain hacc
        obtain ⟨hplain, hnodup⟩ := hplain
        rw [List.forall_mem_cons] at hplain hacc
        obtain ⟨hname, hnodup⟩ := List.nodup_cons.mp hnodup
        rw [List.foldl_cons]
        simp only [hplain.1.1]
        have hzero := held_of_not_mem hname
        split
        · rw [ih _ ⟨hplain.2, hnodup⟩]
          · rw [held_set, held_cons, hacc.1]
            by_cases hitem : item = name
            · rw [if_pos hitem, if_pos hitem.symm, hitem, hzero, hacc.1]
              omega
            · rw [if_neg hitem, if_neg (Ne.symm hitem)]
          · intro entry hentry
            rw [held_set, if_neg, hacc.2 entry hentry]
            intro heq
            have hmem : entry.1 ∈ counts.map Prod.fst := List.mem_map_of_mem hentry
            exact hname (heq ▸ hmem)
        · next hskip =>
          have hn : n = 0 := by
            by_contra hne
            exact hskip ⟨hplain.1.2, by omega⟩
          rw [ih _ ⟨hplain.2, hnodup⟩ hacc.2, held_cons, hn]
          by_cases hitem : name = item
          · rw [if_pos hitem, ← hitem, hzero]
          · rw [if_neg hitem]
  rw [normalizeCounts, hfold counts [] h fun _ _ => rfl]
  exact Nat.zero_add _

theorem plainCounts_normalizeCounts {counts : Counts} (h : PlainCounts lower counts) :
    PlainCounts lower (normalizeCounts lower counts) := by
  have hfold : ∀ (counts acc : Counts), PlainCounts lower counts → PlainCounts lower acc →
      PlainCounts lower (counts.foldl (fun normalized (rawItem, count) =>
        let item := normalizeItem lower rawItem
        if item ≠ "" ∧ 0 < count then Dict.set normalized item (held normalized item + count)
        else normalized) acc) := by
    intro counts
    induction counts with
    | nil => exact fun acc _ hacc => hacc
    | cons entry counts ih =>
        obtain ⟨name, n⟩ := entry
        rintro acc ⟨hplain, hnodup⟩ hacc
        rw [List.forall_mem_cons] at hplain
        rw [List.foldl_cons]
        refine ih _ ⟨hplain.2, (List.nodup_cons.mp hnodup).2⟩ ?_
        simp only [hplain.1.1]
        split
        · refine ⟨fun entry hentry => ?_, Dict.nodup_set hacc.2 _ _⟩
          rcases Dict.mem_of_mem_set hentry with rfl | hentry
          · exact hplain.1
          · exact hacc.1 entry hentry
        · exact hacc
  exact hfold counts [] h ⟨nofun, List.nodup_nil⟩

theorem total_congr {counts counts' : Counts} (h : ∀ item, held counts item = held counts' item)
    (item : String) : total counts item = total counts' item := by
  rw [total, total, funext h]

end

end Acquisition

end MineBot
