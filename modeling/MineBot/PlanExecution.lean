import Mathlib
import MineBot.AcquisitionPlans

/-!
# Executing a plan

A step uses up what it records, adds what it makes, and a step marked
`replan_after` ends the execution. `_compact_steps` makes one step of
neighbours of one key, and that step uses up at once what they used up
in turn; what a step makes is then too late for the next one.

`executePlan_compactFrom` compares the two executions, with the steps
merged so far on the one side and their execution on the other.
-/

namespace MineBot

namespace Acquisition

/-- What there is of each item. -/
abbrev Stock := String → Nat

/-! ## Steps -/

/-- Takes the counts out, one after the other. -/
def useUp : List (String × Nat) → Stock → Option Stock
  | [], stock => some stock
  | (item, count) :: rest, stock =>
      if count ≤ stock item then
        useUp rest fun x => if x = item then stock x - count else stock x
      else none

namespace AcquisitionStep

variable (step : AcquisitionStep)

/-- The recorded ingredients, or the input and the fuel. -/
def uses : List (String × Nat) :=
  match step.detail with
  | .craft _ _ _ ingredients => ingredients
  | .smelt inputItem inputCount fuelItem fuelCount _ =>
      [(inputItem, inputCount), (fuelItem, fuelCount)]
  | _ => []

/-- The item a step adds. -/
def makes : Option String :=
  match step.detail with
  | .collect inventoryItem .. => some inventoryItem
  | .craft .. | .smelt .. => some step.item
  | .equip .. | .equipTarget .. => none

/-- A step adds this much of each item. -/
def made : Stock := fun item => if step.makes = some item then step.count else 0

/-- A step uses up this much of each item. -/
def used : Stock := fun item => ((step.uses.filter (·.1 = item)).map Prod.snd).sum

/-- The step, if there is all that it uses up. -/
def perform (stock : Stock) : Option Stock :=
  (useUp step.uses stock).map fun stock item => stock item + step.made item

end AcquisitionStep

/-- The stock at the end, and what is left of the plan if a step asked for
a new one. -/
def executePlan : List AcquisitionStep → Stock → Option (Stock × Option (List AcquisitionStep))
  | [], stock => some (stock, none)
  | step :: steps, stock =>
      (step.perform stock).bind fun stock =>
        if step.replanAfter then some (stock, some steps) else executePlan steps stock

/-- What steps use up of an item. -/
def usedByAll (steps : List AcquisitionStep) (item : String) : Nat :=
  (steps.map fun step => step.used item).sum

/-- Where the plan comes to a step, there is enough of the item that the
step makes for it and for the steps of its key that follow directly. -/
def Stocked : List AcquisitionStep → Stock → Prop
  | [], _ => True
  | step :: steps, stock =>
      (∀ item, step.makes = some item →
        usedByAll (step :: steps.takeWhile (sameKey step)) item ≤ stock item) ∧
      ∀ stock', step.perform stock = some stock' → step.replanAfter = false → Stocked steps stock'

section Steps

variable {stock stock' : Stock} {step left right : AcquisitionStep}

theorem usedByAll_cons (step : AcquisitionStep) (steps : List AcquisitionStep) (item : String) :
    usedByAll (step :: steps) item = step.used item + usedByAll steps item := List.sum_cons

theorem useUp_eq_some {counts : List (String × Nat)} :
    useUp counts stock = some stock' ↔
      ∀ item, stock item = stock' item + ((counts.filter (·.1 = item)).map Prod.snd).sum := by
  induction counts generalizing stock with
  | nil =>
      rw [useUp, Option.some.injEq, funext_iff]
      rfl
  | cons entry counts ih =>
      obtain ⟨item, count⟩ := entry
      rw [useUp]
      split
      · next hle =>
          rw [ih]
          refine forall_congr' fun x => ?_
          by_cases hx : x = item
          · subst hx
            simp only [if_true, List.filter_cons, decide_true, List.map_cons, List.sum_cons]
            omega
          · simp only [if_neg hx, List.filter_cons, decide_eq_false (Ne.symm hx), Bool.false_eq_true,
              if_false]
      · next hlt =>
          refine ⟨nofun, fun hall => absurd ?_ hlt⟩
          have hitem := hall item
          simp only [List.filter_cons, decide_true, if_true, List.map_cons, List.sum_cons] at hitem
          omega

/-- A step is possible if there is all that it uses up; then it exchanges
that for what it makes. -/
theorem AcquisitionStep.perform_eq_some : step.perform stock = some stock' ↔
    ∀ item, step.used item ≤ stock item ∧
      stock' item + step.used item = stock item + step.made item := by
  rw [perform, Option.map_eq_some_iff]
  constructor
  · rintro ⟨rest, hrest, rfl⟩ item
    have hitem := useUp_eq_some.mp hrest item
    change stock item = rest item + step.used item at hitem
    dsimp only
    omega
  · intro hall
    refine ⟨fun item => stock item - step.used item, useUp_eq_some.mpr fun item => ?_, ?_⟩
    · change stock item = stock item - step.used item + step.used item
      have := (hall item).1
      omega
    · funext item
      have := hall item
      dsimp only
      omega

theorem AcquisitionStep.made_of_ne {item : String} (h : step.makes ≠ some item) :
    step.made item = 0 := if_neg h

/-! ## Steps of one key -/

theorem sameKey_refl (step : AcquisitionStep) : sameKey step step = true := by
  unfold sameKey
  cases step.detail <;> simp

theorem sameKey_symm (h : sameKey left right = true) : sameKey right left = true := by
  unfold sameKey at h ⊢
  cases hl : left.detail <;> cases hr : right.detail <;> simp_all

theorem sameKey_trans {middle : AcquisitionStep} (h : sameKey left middle = true)
    (h' : sameKey middle right = true) : sameKey left right = true := by
  unfold sameKey at h h' ⊢
  cases hl : left.detail <;> cases hm : middle.detail <;> cases hr : right.detail <;> simp_all

/-- Steps of one key have the same steps of their key. -/
theorem sameKey_congr (h : sameKey left right = true) : sameKey left = sameKey right := by
  funext step
  rw [Bool.eq_iff_iff]
  exact ⟨sameKey_trans (sameKey_symm h), sameKey_trans h⟩

variable (lower : String → String)

/-- The ingredients of a craft are under distinct names in normal form. -/
def Named (step : AcquisitionStep) : Prop :=
  ∀ kind table output ingredients, step.detail = .craft kind table output ingredients →
    PlainCounts lower ingredients

/-- Steps of one key that follow each other do not ask for a new plan, and
add the same item. -/
def Follows (left right : AcquisitionStep) : Prop :=
  sameKey left right = true →
    left.replanAfter = false ∧ right.replanAfter = false ∧ left.makes = right.makes

variable {lower}

theorem held_eq_sum {counts : Counts} (h : (counts.map Prod.fst).Nodup) (item : String) :
    held counts item = ((counts.filter (·.1 = item)).map Prod.snd).sum := by
  induction counts with
  | nil => rfl
  | cons entry counts ih =>
      obtain ⟨name, count⟩ := entry
      obtain ⟨hname, hnodup⟩ := List.nodup_cons.mp h
      rw [held_cons, List.filter_cons]
      by_cases hitem : name = item
      · subst hitem
        have hrest := ih hnodup
        rw [held_of_not_mem hname] at hrest
        rw [if_pos rfl, if_pos (decide_eq_true rfl), List.map_cons, List.sum_cons, ← hrest]
        exact (Nat.add_zero count).symm
      · rw [if_neg hitem, if_neg (by simpa using hitem)]
        exact ih hnodup

theorem held_mergeCounts {left right : Dict String Nat} (h : (right.map Prod.fst).Nodup)
    (item : String) : held (mergeCounts left right) item = held left item + held right item := by
  unfold mergeCounts
  induction right generalizing left with
  | nil => rfl
  | cons entry right ih =>
      obtain ⟨name, count⟩ := entry
      obtain ⟨hname, hnodup⟩ := List.nodup_cons.mp h
      rw [List.foldl_cons, ih hnodup, held_set, held_cons]
      by_cases hitem : item = name
      · subst hitem
        rw [if_pos rfl, if_pos rfl, held_of_not_mem hname]
        omega
      · rw [if_neg hitem, if_neg (Ne.symm hitem)]

theorem plainCounts_mergeCounts {left right : Dict String Nat} (hleft : PlainCounts lower left)
    (hright : PlainCounts lower right) : PlainCounts lower (mergeCounts left right) := by
  unfold mergeCounts
  obtain ⟨hnames, -⟩ := hright
  induction right generalizing left with
  | nil => exact hleft
  | cons entry right ih =>
      rw [List.forall_mem_cons] at hnames
      rw [List.foldl_cons]
      refine ih ⟨fun other hother => ?_, Dict.nodup_set hleft.2 _ _⟩ hnames.2
      rcases Dict.mem_of_mem_set hother with rfl | hother
      · exact hnames.1
      · exact hleft.1 other hother

variable (lower) in
/-- The merged step has the key of both. -/
theorem sameKey_mergeStep (h : sameKey left right = true) :
    sameKey left (mergeStep lower left right) = true := by
  unfold sameKey at h ⊢
  unfold mergeStep
  cases hl : left.detail <;> cases hr : right.detail <;> simp_all

theorem named_mergeStep (hleft : Named lower left) (hright : Named lower right) :
    Named lower (mergeStep lower left right) := by
  intro kind table output ingredients hdetail
  unfold mergeStep at hdetail
  dsimp only at hdetail
  split at hdetail
  · next hl hr =>
      cases hdetail
      exact plainCounts_mergeCounts (plainCounts_normalizeCounts (hleft _ _ _ _ hl))
        (plainCounts_normalizeCounts (hright _ _ _ _ hr))
  · cases hdetail
  · exact hleft _ _ _ _ hdetail

variable (lower) in
/-- The merged step makes, and asks for, what its steps do. -/
theorem makes_mergeStep (left right : AcquisitionStep) :
    (mergeStep lower left right).makes = left.makes ∧
      (mergeStep lower left right).replanAfter = left.replanAfter := by
  unfold mergeStep AcquisitionStep.makes AcquisitionStep.replanAfter
  cases hl : left.detail <;> cases hr : right.detail <;> simp

theorem used_craft {item : String} {kind : String} {table : Bool} {output : Nat}
    {ingredients : Dict String Nat} (hdetail : step.detail = .craft kind table output ingredients)
    (hplain : PlainCounts lower ingredients) : step.used item = held ingredients item := by
  rw [AcquisitionStep.used, AcquisitionStep.uses, hdetail]
  exact (held_eq_sum hplain.2 item).symm

/-- The merged step uses up, and adds, what both do. -/
theorem used_mergeStep (hleft : Named lower left) (hright : Named lower right)
    (h : sameKey left right = true) (hmakes : left.makes = right.makes) (item : String) :
    (mergeStep lower left right).used item = left.used item + right.used item ∧
      (mergeStep lower left right).made item = left.made item + right.made item := by
  constructor
  · cases hl : left.detail with
    | craft kind table output ingredients =>
        cases hr : right.detail with
        | craft kind' table' output' ingredients' =>
            have hnamed := hleft _ _ _ _ hl
            have hnamed' := hright _ _ _ _ hr
            have hmerged : (mergeStep lower left right).detail = .craft kind table output
                (mergeCounts (dictOfInts lower ingredients) (dictOfInts lower ingredients')) := by
              simp only [mergeStep, hl, hr]
            rw [used_craft hmerged (plainCounts_mergeCounts (plainCounts_normalizeCounts hnamed)
                (plainCounts_normalizeCounts hnamed')), used_craft hl hnamed, used_craft hr hnamed',
              dictOfInts, dictOfInts, held_mergeCounts (plainCounts_normalizeCounts hnamed').2,
              held_normalizeCounts hnamed, held_normalizeCounts hnamed']
        | _ => simp [sameKey, hl, hr] at h
    | smelt inputItem inputCount fuelItem fuelCount seconds =>
        cases hr : right.detail with
        | smelt inputItem' inputCount' fuelItem' fuelCount' seconds' =>
            simp only [sameKey, hl, hr, Bool.and_eq_true, decide_eq_true_eq] at h
            obtain ⟨-, rfl, rfl⟩ := h
            simp only [AcquisitionStep.used, AcquisitionStep.uses, mergeStep, hl, hr,
              List.filter_cons, List.filter_nil]
            by_cases hinput : inputItem = item
            · by_cases hfuel : fuelItem = item
              · simp [hinput, hfuel]
                omega
              · simp [hinput, hfuel]
            · by_cases hfuel : fuelItem = item
              · simp [hinput, hfuel]
              · simp [hinput, hfuel]
        | _ => simp [sameKey, hl, hr] at h
    | _ => cases hr : right.detail <;> simp [sameKey, hl, hr] at h <;>
        simp [AcquisitionStep.used, AcquisitionStep.uses, mergeStep, hl, hr]
  · have hcount : (mergeStep lower left right).count = left.count + right.count := rfl
    rw [AcquisitionStep.made, AcquisitionStep.made, AcquisitionStep.made,
      (makes_mergeStep lower left right).1, ← hmakes, hcount]
    split <;> rfl

end Steps

/-! ## Both executions -/

section Executions

variable {lower : String → String} {last : AcquisitionStep} {before stock stock' : Stock}
variable {steps rest : List AcquisitionStep} {stop : Option (List AcquisitionStep)}

/-- What a plan goes on with after a step. -/
def afterStep (step : AcquisitionStep) (rest : List AcquisitionStep) (stock : Stock) :
    Option (Stock × Option (List AcquisitionStep)) :=
  if step.replanAfter then some (stock, some rest) else executePlan rest stock

/-- Executing a plan whose first step leads from one stock to another, if
there is enough of the item that it makes. -/
theorem executePlan_cons (hbalance : ∀ item, stock item + last.used item
      = before item + last.made item)
    (hothers : ∀ item, last.makes ≠ some item → last.used item ≤ before item)
    {result : Stock × Option (List AcquisitionStep)} :
    executePlan (last :: rest) before = some result ↔
      (∀ item, last.makes = some item → last.used item ≤ before item) ∧
        afterStep last rest stock = some result := by
  have hperform : (∀ item, last.makes = some item → last.used item ≤ before item) ↔
      last.perform before = some stock := by
    rw [AcquisitionStep.perform_eq_some]
    refine ⟨fun henough item => ⟨?_, hbalance item⟩, fun hall item _ => (hall item).1⟩
    by_cases hmakes : last.makes = some item
    · exact henough item hmakes
    · exact hothers item hmakes
  rw [executePlan, Option.bind_eq_some_iff]
  constructor
  · rintro ⟨found, hfound, hafter⟩
    have hsame : found = stock := by
      funext item
      have hitem := (AcquisitionStep.perform_eq_some.mp hfound item).2
      have := hbalance item
      omega
    exact ⟨hperform.mpr (hsame ▸ hfound), hsame ▸ hafter⟩
  · rintro ⟨henough, hafter⟩
    exact ⟨stock, hperform.mp henough, hafter⟩

theorem executePlan_cons_some {step : AcquisitionStep}
    {result : Stock × Option (List AcquisitionStep)}
    (h : executePlan (step :: steps) stock = some result) :
    ∃ next, step.perform stock = some next ∧ afterStep step steps next = some result :=
  Option.bind_eq_some_iff.mp h

/-- A step that is merged into the one before it keeps the chain. -/
theorem isChain_mergeStep {step : AcquisitionStep}
    (hchain : (last :: step :: steps).IsChain Follows) (hkey : sameKey last step = true) :
    (mergeStep lower last step :: steps).IsChain Follows := by
  obtain ⟨hfollows, hrest⟩ := List.isChain_cons_cons.mp hchain
  obtain ⟨hlast, -, hmakes⟩ := hfollows hkey
  have hmerged : sameKey step (mergeStep lower last step) = true :=
    sameKey_trans (sameKey_symm hkey) (sameKey_mergeStep lower hkey)
  refine List.isChain_cons.mpr ⟨fun next hnext hsame => ?_, hrest.tail⟩
  obtain ⟨-, hreplan, hmakes'⟩ :=
    (List.isChain_cons.mp hrest).1 next hnext (sameKey_trans hmerged hsame)
  obtain ⟨hmakes₀, hreplan₀⟩ := makes_mergeStep lower last step
  exact ⟨hreplan₀.trans hlast, hreplan, hmakes₀.trans (hmakes.trans hmakes')⟩

/-- `last` stands for steps that have led from `before` to `stock`, and
the rest of the plan goes on from there: the compaction of it all, from
`before`, comes to the same end if and only if the plan is stocked. The
induction is on the rest. -/
theorem executePlan_compactFrom (hchain : (last :: steps).IsChain Follows)
    (hnamed : ∀ step ∈ last :: steps, Named lower step)
    (hbalance : ∀ item, stock item + last.used item = before item + last.made item)
    (hothers : ∀ item, last.makes ≠ some item → last.used item ≤ before item)
    (hexec : afterStep last steps stock = some (stock', stop)) :
    executePlan (compactFrom lower last steps) before
        = some (stock', stop.map (compactSteps lower)) ↔
      (∀ item, last.makes = some item →
        last.used item + usedByAll (steps.takeWhile (sameKey last)) item ≤ before item) ∧
      (last.replanAfter = false → Stocked steps stock) := by
  induction steps generalizing last before stock with
  | nil =>
      rw [compactFrom, executePlan_cons hbalance hothers]
      have hend : afterStep last [] stock = some (stock', stop.map (compactSteps lower)) := by
        unfold afterStep at hexec ⊢
        split at hexec
        · next hreplan =>
            cases hexec
            exact if_pos hreplan
        · next hreplan =>
            cases hexec
            exact if_neg hreplan
      simp only [hend, List.takeWhile_nil, usedByAll, List.map_nil, List.sum_nil, Nat.add_zero,
        Stocked, implies_true, and_true]
  | cons step steps ih =>
      obtain ⟨hfollows, hchain'⟩ := List.isChain_cons_cons.mp hchain
      have hstep : Named lower step := hnamed step (by simp)
      by_cases hkey : sameKey last step = true
      · -- the next step is merged: the execution moves on, `before` stays
        obtain ⟨hlast, hreplan, hmakes⟩ := hfollows hkey
        rw [afterStep, hlast, if_neg Bool.false_ne_true] at hexec
        obtain ⟨next, hperform, hafter⟩ := executePlan_cons_some hexec
        have hmerged := used_mergeStep (hnamed last List.mem_cons_self) hstep hkey hmakes
        obtain ⟨hmakes', hreplan'⟩ := makes_mergeStep lower last step
        have hnext := AcquisitionStep.perform_eq_some.mp hperform
        rw [compactFrom, if_pos hkey, @ih _ _ next (isChain_mergeStep hchain hkey)]
        · rw [hmakes', hreplan', ← sameKey_congr (sameKey_mergeStep lower hkey),
            List.takeWhile_cons_of_pos hkey]
          simp only [hlast, forall_const]
          rw [Stocked, ← sameKey_congr hkey]
          constructor
          · rintro ⟨henough, hstocked⟩
            refine ⟨fun item hitem => ?_, fun item hitem => ?_, fun found hfound _ => ?_⟩
            · have := henough item hitem
              have := (hmerged item).1
              rw [usedByAll_cons]
              omega
            · have := henough item (hmakes.trans hitem)
              have := (hmerged item).1
              have := hbalance item
              rw [usedByAll_cons]
              omega
            · cases hperform.symm.trans hfound
              exact hstocked
          · rintro ⟨henough, -, hstocked⟩
            refine ⟨fun item hitem => ?_, hstocked next hperform hreplan⟩
            have henough := henough item hitem
            rw [usedByAll_cons] at henough
            have := (hmerged item).1
            omega
        · intro other hother
          rcases List.mem_cons.mp hother with rfl | hother
          · exact named_mergeStep (hnamed last List.mem_cons_self) hstep
          · exact hnamed other (by simp [hother])
        · intro item
          have := hmerged item
          have := hbalance item
          have := hnext item
          omega
        · intro item hitem
          rw [hmakes'] at hitem
          have := hmerged item
          have := hbalance item
          have := hnext item
          have hmade := AcquisitionStep.made_of_ne hitem
          omega
        · rw [afterStep, hreplan', hlast, if_neg Bool.false_ne_true]
          rw [afterStep, hreplan, if_neg Bool.false_ne_true] at hafter
          exact hafter
      · -- the merged step is done: both executions are at `stock`
        rw [compactFrom, if_neg hkey, executePlan_cons hbalance hothers,
          List.takeWhile_cons_of_neg hkey]
        simp only [usedByAll, List.map_nil, List.sum_nil, Nat.add_zero]
        refine and_congr_right fun _ => ?_
        by_cases hreplan : last.replanAfter = true
        · rw [afterStep, if_pos hreplan] at hexec ⊢
          cases hexec
          simp [hreplan, compactSteps]
        · rw [afterStep, if_neg hreplan] at hexec ⊢
          obtain ⟨next, hperform, hafter⟩ := executePlan_cons_some hexec
          have hnext := AcquisitionStep.perform_eq_some.mp hperform
          rw [ih hchain' (fun other hother => hnamed other (List.mem_cons_of_mem _ hother))
            (fun item => (hnext item).2) (fun item _ => (hnext item).1) hafter,
            Bool.eq_false_iff.mpr hreplan]
          simp only [forall_const]
          rw [Stocked]
          refine and_congr_right fun _ => ⟨fun hstocked found hfound => ?_, fun hstocked =>
            hstocked next hperform⟩
          cases hperform.symm.trans hfound
          exact hstocked

/-- A plan that can be executed, and its compaction. -/
theorem executePlan_compactSteps (hchain : steps.IsChain Follows)
    (hnamed : ∀ step ∈ steps, Named lower step)
    (hexec : executePlan steps stock = some (stock', stop)) :
    executePlan (compactSteps lower steps) stock = some (stock', stop.map (compactSteps lower)) ↔
      Stocked steps stock := by
  cases steps with
  | nil =>
      cases hexec
      simp [compactSteps, executePlan, Stocked]
  | cons step steps =>
      obtain ⟨next, hperform, hafter⟩ := executePlan_cons_some hexec
      have hnext := AcquisitionStep.perform_eq_some.mp hperform
      rw [compactSteps, executePlan_compactFrom hchain hnamed (fun item => (hnext item).2)
        (fun item _ => (hnext item).1) hafter, Stocked]
      refine and_congr_right fun _ => ⟨fun hstocked found hfound => ?_, fun hstocked =>
        hstocked next hperform⟩
      cases hperform.symm.trans hfound
      exact hstocked

end Executions

end Acquisition

end MineBot
