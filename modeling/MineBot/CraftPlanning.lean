import Mathlib
import MineBot.CraftAllocation
import MineBot.Results

/-!
# Craft plans and what verifies them

`chooseCraftPlan` settles which slots a craft takes from, what it leaves in
them and where its output goes. `craftMatchesExpectation` decides from the
inventories before and after whether that craft took place, without the plan's
reasons. Both are compared with what the plan says the craft does,
`expected`.

The plan leaves the capacity of an empty output slot to `craftRecipe`'s
batches (`crafted_le_batchLimit`).
-/

namespace MineBot

namespace Craft

open scoped IntOrder

/-! ## The plan -/

/-- A recipe with what its choice depends on. `_parse_recipe_variants` drops
those that yield nothing. -/
structure RecipeVariant extends CraftRecipeVariant where
  outputCount : Nat
  width : Int
  height : Int
  requiresTable : Bool
  yields : 0 < outputCount

structure CraftRemainder where
  slot : Int
  item : ItemName
  count : Nat

structure CraftPlan where
  item : ItemName
  requestedCount : Nat
  craftedCount : Nat
  outputSlot : Int
  variantIndex : Nat
  variant : RecipeVariant
  inputs : List CraftInput
  remainders : List CraftRemainder

def milkBucket : ItemName := ⟨true, "milk_bucket", by decide, by decide⟩

def waterBucket : ItemName := ⟨true, "water_bucket", by decide, by decide⟩

def lavaBucket : ItemName := ⟨true, "lava_bucket", by decide, by decide⟩

def powderSnowBucket : ItemName := ⟨true, "powder_snow_bucket", by decide, by decide⟩

def honeyBottle : ItemName := ⟨true, "honey_bottle", by decide, by decide⟩

def bucket : ItemName := ⟨true, "bucket", by decide, by decide⟩

def glassBottle : ItemName := ⟨true, "glass_bottle", by decide, by decide⟩

/-- `CRAFT_REMAINDER_MAP`. -/
def craftRemainderMap : Dict ItemName ItemName :=
  [(milkBucket, bucket), (waterBucket, bucket), (lavaBucket, bucket), (powderSnowBucket, bucket),
    (honeyBottle, glassBottle)]

/-- `{slot.slot: slot for slot in slots}` -/
def slotMap (slots : List InventorySlot) : Dict Int InventorySlot :=
  slots.map fun slot => (slot.slot, slot)

/-- The metrics of `craft_remainder_slot_conflict`. -/
structure RemainderConflict where
  slot : Int
  item : ItemName
  count : Nat
  sourceCount : Nat

/-- The remainder of one input. -/
def planCraftRemainder (slots : List InventorySlot) (chosenItems : Dict Int (Option ItemName))
    (remainders : List CraftRemainder) (entry : CraftInput) :
    Except RemainderConflict (List CraftRemainder) :=
  match (chosenItems.get? entry.slot).getD (entry.item.map normalizeRecipeItem) with
  | none => .ok remainders
  | some item =>
      match craftRemainderMap.get? item, (slotMap slots).get? entry.slot with
      | some remainder, some source =>
          -- what stays behind needs the slot to itself
          if source.count ≠ entry.count then .error ⟨entry.slot, item, entry.count, source.count⟩
          else .ok (remainders ++ [⟨entry.slot, remainder, entry.count⟩])
      | _, _ => .ok remainders

/-- `_plan_craft_remainders`. -/
def planCraftRemainders (slots : List InventorySlot) (inputs : List CraftInput)
    (chosenItems : Dict Int (Option ItemName)) : Except RemainderConflict (List CraftRemainder) :=
  inputs.foldlM (planCraftRemainder slots chosenItems) []

/-- `_slot_by_index`. -/
def slotByIndex (slots : List InventorySlot) (index : Int) : Option InventorySlot :=
  slots.find? fun slot => slot.slot = index

/-- `0 <= index < 36` -/
def inMain (index : Int) : Bool := 0 ≤ index && index < 36

/-- `slot is None or slot.empty` -/
def vacant (slot : Option InventorySlot) : Bool := slot.all InventorySlot.empty

/-- The stack can take the output. -/
def takesOutput (item : ItemName) (count maxStack : Nat) (slot : InventorySlot) : Bool :=
  sameItem slot.item item && slot.count + count ≤ maxStack

/-- `_find_craft_output_slot`. -/
def findCraftOutputSlot (slots : List InventorySlot) (item : ItemName) (count : Nat)
    (preferred : Option Int) (exclude : List Int) (maxStack : Nat) : Option Int :=
  match preferred with
  | some preferred =>
      if !inMain preferred || preferred ∈ exclude then none
      else match slotByIndex slots preferred with
        | none => some preferred
        | some slot =>
            if slot.empty then some preferred
            else if slot.slot ∉ exclude && takesOutput item count maxStack slot then some preferred
            else none
  | none =>
      let partly := slots.find? fun slot =>
        inMain slot.slot && slot.slot ∉ exclude && !slot.empty && takesOutput item count maxStack slot
      let free := ((List.range 36).map Int.ofNat).find? fun index =>
        index ∉ exclude && vacant (slotByIndex slots index)
      (partly.map InventorySlot.slot).or free

/-- Why a variant does not do. -/
structure VariantFailure where
  variantIndex : Nat
  reason : String
  requiresTable : Bool
  /-- `output_count` and `missing`, where the inputs are the reason. -/
  short : Option (Nat × List MissingInput)

/-- One turn of the loop over the variants. -/
def planVariant (inv : Inventory) (item : ItemName) (count : Nat) (outputSlot : Option Int)
    (maxStack : Nat) (index : Nat) (variant : RecipeVariant) : Except VariantFailure CraftPlan :=
  let crafts := (count + variant.outputCount - 1) / variant.outputCount
  let craftedCount := crafts * variant.outputCount
  match allocateRecipeInputs inv variant.toCraftRecipeVariant crafts with
  | none =>
      .error ⟨index, "inputs_not_available", variant.requiresTable,
        some (variant.outputCount, missingRecipeInputs inv variant.toCraftRecipeVariant crafts)⟩
  | some (inputs, chosenItems) =>
      match planCraftRemainders inv.slots inputs chosenItems with
      | .error _ => .error ⟨index, "craft_remainder_slot_conflict", variant.requiresTable, none⟩
      | .ok remainders =>
          match findCraftOutputSlot inv.slots item craftedCount outputSlot
              (inputs.map CraftInput.slot) maxStack with
          | none => .error ⟨index, "output_no_space", variant.requiresTable, none⟩
          | some selected =>
              .ok ⟨item, count, craftedCount, selected, index, variant, inputs, remainders⟩

/-- The first variant that does, or why each does not. -/
def firstPlan (inv : Inventory) (item : ItemName) (count : Nat) (outputSlot : Option Int)
    (maxStack : Nat) : List (RecipeVariant × Nat) → Except (List VariantFailure) CraftPlan
  | [] => .error []
  | (variant, index) :: rest =>
      match planVariant inv item count outputSlot maxStack index variant with
      | .ok plan => .ok plan
      | .error failure => (firstPlan inv item count outputSlot maxStack rest).mapError (failure :: ·)

/-- `(candidate.requires_table, candidate.width * candidate.height)` -/
def Simpler (variant variant' : RecipeVariant) : Prop :=
  (variant.requiresTable = false ∧ variant'.requiresTable = true) ∨
    (variant.requiresTable = variant'.requiresTable ∧
      variant.width * variant.height ≤ variant'.width * variant'.height)

instance decidableSimpler : DecidableRel Simpler := fun _ _ => inferInstanceAs (Decidable (_ ∨ _))

/-- `craft_plan_not_available`. -/
structure PlanNotAvailable where
  item : ItemName
  requestedCount : Nat
  variantFailures : List VariantFailure
  missing : Option (List MissingInput)
  nextSuggestion : String

/-- `_missing_text`. -/
def missingText (entry : MissingInput) : String :=
  let name := match entry.anyOf with
    | [] => "an ingredient"
    | [option] => option.path
    | option :: _ => option.path ++ " or another of " ++ toString entry.anyOf.length ++ " kinds"
  toString (entry.need - entry.held) ++ " more " ++ name ++ " (needs " ++ toString entry.need ++
    ", has " ++ toString entry.held ++ ")"

/-- `sum(int(m["need"]) - int(m["have"]) for m in failure["missing"])` -/
def shortfall (missing : List MissingInput) : Nat :=
  (missing.map fun entry => entry.need - entry.held).sum

/-- What the Agent is told where no variant does. -/
def planNotAvailable (item : ItemName) (count : Nat) (failures : List VariantFailure) :
    PlanNotAvailable :=
  let short := (failures.filterMap fun failure => failure.short.map Prod.snd).filter (· ≠ [])
  match short.argmin shortfall with
  | some closest =>
      ⟨item, count, failures, some closest, "To craft " ++ toString count ++ " " ++ item.path ++
        " the inventory still lacks: " ++ "; ".intercalate (closest.map missingText) ++ "."⟩
  | none =>
      ⟨item, count, failures, none,
        "free inventory space, gather the missing ingredients, or adjust the requested craft count"⟩

/-- `_choose_craft_plan`. -/
def chooseCraftPlan (inv : Inventory) (item : ItemName) (count : Nat) (outputSlot : Option Int)
    (variants : List RecipeVariant) (maxStack : Nat) : Except PlanNotAvailable CraftPlan :=
  let item := normalizeRecipeItem item
  (firstPlan inv item count outputSlot maxStack
    (variants.insertionSort Simpler).zipIdx).mapError (planNotAvailable item count)

/-! ## The verification -/

structure CraftOutput where
  slot : Int
  item : ItemName
  count : Nat

/-- The output that `craft_recipe` passes on to `craft_exact`. -/
def CraftPlan.output (plan : CraftPlan) : CraftOutput := ⟨plan.outputSlot, plan.item, plan.craftedCount⟩

/-- `0 if slot is None or slot.empty else slot.count` -/
def countIn (slot : Option InventorySlot) : Nat := if vacant slot then 0 else slot.elim 0 InventorySlot.count

/-- The slot is filled, and with the item. -/
def showsItem (slot : Option InventorySlot) (item : Option ItemName) : Bool :=
  slot.any fun slot => !slot.empty && item.any (sameItem slot.item)

/-- The turn of the first loop. -/
def inputMatches (before after : Option InventorySlot) (remainder : Option CraftRemainder)
    (entry : CraftInput) : Bool :=
  match before with
  | none => false
  | some source =>
      if source.empty || !entry.item.any (sameItem source.item) || source.count < entry.count then false
      else
        let expectedAfterCount := source.count - entry.count
        match remainder with
        | some remainder =>
            expectedAfterCount = 0 && showsItem after (some remainder.item)
              && countIn after = remainder.count
        | none =>
            countIn after = expectedAfterCount
              && (expectedAfterCount = 0 || showsItem after entry.item)

/-- What is asked of the output slot. -/
def outputMatches (before after : Option InventorySlot) (output : CraftOutput) : Bool :=
  (vacant before || showsItem before (some output.item)) && showsItem after (some output.item)
    && countIn after = countIn before + output.count

/-- `_slot_signature`. -/
def slotSignature : Option InventorySlot → Option String × Nat × Bool
  | none => (none, 0, true)
  | some slot => (slot.item.map ItemName.text, slot.count, slot.empty)

/-- `_craft_matches_expectation`. -/
def craftMatchesExpectation (before after : Inventory) (inputs : List CraftInput)
    (output : CraftOutput) (remainders : List CraftRemainder) : Bool :=
  let beforeMap := slotMap before.slots
  let afterMap := slotMap after.slots
  let remainderMap := Dict.update [] (remainders.map fun entry => (entry.slot, entry))
  let involvedSlots := output.slot :: inputs.map CraftInput.slot
  inputs.all (fun entry => inputMatches (beforeMap.get? entry.slot) (afterMap.get? entry.slot)
      (remainderMap.get? entry.slot) entry)
    && outputMatches (beforeMap.get? output.slot) (afterMap.get? output.slot) output
    -- unrelated slots stay untouched
    && (beforeMap.map Prod.fst ++ afterMap.map Prod.fst).all fun index =>
      index ∈ involvedSlots
        || slotSignature (beforeMap.get? index) = slotSignature (afterMap.get? index)

/-! ## The craft that was planned -/

/-- What a slot holds: an item, whatever its namespace, and how many. -/
abbrev Contents := Option (Option String × Nat)

def contentsOf : Option InventorySlot → Contents
  | none => none
  | some slot =>
      if slot.empty || slot.count = 0 then none else some (slot.item.map ItemName.path, slot.count)

def Inventory.contents (inv : Inventory) (index : Int) : Contents :=
  contentsOf ((slotMap inv.slots).get? index)

def Contents.count (contents : Contents) : Nat := contents.elim 0 Prod.snd

/-- So many are taken out of a slot. -/
def Contents.less (contents : Contents) (count : Nat) : Contents :=
  contents.bind fun (item, held) => if held ≤ count then none else some (item, held - count)

/-- So many are put on top. -/
def Contents.plus (contents : Contents) (item : ItemName) (count : Nat) : Contents :=
  some (some item.path, contents.count + count)

/-- Each entry changes its own slot. -/
def changeSlots {ε : Type} (slot : ε → Int) (change : ε → Contents → Contents)
    (entries : List ε) (held : Int → Contents) : Int → Contents :=
  entries.foldr (fun entry held =>
    Function.update held (slot entry) (change entry (held (slot entry)))) held

/-- The inventory, slot by slot, with the planned inputs removed and the planned
remainders put into their slots. -/
def CraftPlan.leaves (plan : CraftPlan) (inv : Inventory) : Int → Contents :=
  changeSlots CraftRemainder.slot (fun entry _ => some (some entry.item.path, entry.count))
    plan.remainders
    (changeSlots CraftInput.slot (fun entry held => held.less entry.count) plan.inputs inv.contents)

/-- And with the output added to its own slot. -/
def CraftPlan.expected (plan : CraftPlan) (inv : Inventory) : Int → Contents :=
  Function.update (plan.leaves inv) plan.outputSlot
    ((plan.leaves inv plan.outputSlot).plus plan.item plan.craftedCount)

/-! ## Slots by their indexes -/

theorem slotMap_get? {inv : Inventory} {index : Int} {slot : InventorySlot} :
    (slotMap inv.slots).get? index = some slot ↔ slot ∈ inv.slots ∧ slot.slot = index := by
  have hkeys : ((slotMap inv.slots).map Prod.fst).Nodup := by
    rw [slotMap, List.map_map]
    exact inv.distinct
  rw [← Dict.mem_iff_get? hkeys, slotMap, List.mem_map]
  constructor
  · rintro ⟨slot', hmem, heq⟩
    cases heq
    exact ⟨hmem, rfl⟩
  · rintro ⟨hmem, rfl⟩
    exact ⟨slot, hmem, rfl⟩

theorem slotByIndex_eq (slots : List InventorySlot) (index : Int) :
    slotByIndex slots index = (slotMap slots).get? index := by
  induction slots with
  | nil => rfl
  | cons slot slots ih =>
      rw [slotByIndex, List.find?_cons, slotMap, List.map_cons, Dict.get?_cons]
      by_cases h : slot.slot = index
      · simp [h]
      · simp only [h, decide_false, if_false]
        exact ih

theorem mem_main {inv : Inventory} {slot : InventorySlot} :
    slot ∈ inv.main ↔ slot ∈ inv.slots ∧ inMain slot.slot = true := List.mem_filter

section

variable {ε : Type} {slot : ε → Int} {change : ε → Contents → Contents} {entries : List ε}

theorem changeSlots_of_not_mem {index : Int} (h : index ∉ entries.map slot)
    (held : Int → Contents) : changeSlots slot change entries held index = held index := by
  induction entries with
  | nil => rfl
  | cons entry entries ih =>
      rw [List.map_cons, List.mem_cons, not_or] at h
      rw [changeSlots, List.foldr_cons, Function.update_of_ne h.1]
      exact ih h.2

theorem changeSlots_of_mem (hnodup : (entries.map slot).Nodup) {entry : ε} (h : entry ∈ entries)
    (held : Int → Contents) :
    changeSlots slot change entries held (slot entry) = change entry (held (slot entry)) := by
  induction entries with
  | nil => cases h
  | cons first entries ih =>
      obtain ⟨hfirst, hrest⟩ := List.nodup_cons.mp hnodup
      rw [changeSlots, List.foldr_cons]
      rcases List.mem_cons.mp h with rfl | h
      · rw [Function.update_self]
        exact congrArg _ (changeSlots_of_not_mem hfirst held)
      · have hne : slot entry ≠ slot first := fun heq => hfirst (heq ▸ List.mem_map_of_mem h)
        rw [Function.update_of_ne hne]
        exact ih hrest h

end

/-! ## What slots show and hold -/

theorem countIn_none : countIn none = 0 := rfl

theorem countIn_some (slot : InventorySlot) :
    countIn (some slot) = if slot.empty then 0 else slot.count := rfl

theorem contentsOf_eq_none {slot : Option InventorySlot} : contentsOf slot = none ↔ countIn slot = 0 := by
  cases slot with
  | none => simp [contentsOf, countIn_none]
  | some slot => cases hempty : slot.empty <;> simp [contentsOf, countIn_some, hempty]

theorem count_contentsOf (slot : Option InventorySlot) : (contentsOf slot).count = countIn slot := by
  cases slot with
  | none => rfl
  | some slot =>
      cases hempty : slot.empty
      · by_cases hzero : slot.count = 0 <;>
          simp [contentsOf, countIn_some, hempty, hzero, Contents.count]
      · simp [contentsOf, countIn_some, hempty, Contents.count]

/-- A slot shows the item if that is what it holds any of. -/
theorem showsItem_and_count {slot : Option InventorySlot} {item : ItemName} {count : Nat}
    (hpos : 0 < count) :
    (showsItem slot (some item) = true ∧ countIn slot = count) ↔
      contentsOf slot = some (some item.path, count) := by
  cases slot with
  | none => simp [showsItem, contentsOf]
  | some slot =>
      cases hempty : slot.empty
      · by_cases hzero : slot.count = 0
        · simp only [countIn_some, contentsOf, hempty, hzero]
          constructor
          · rintro ⟨-, hcount⟩
            exact absurd hcount (Nat.ne_of_lt hpos)
          · intro h
            cases h
        · cases hitem : slot.item with
          | none => simp [showsItem, contentsOf, hempty, hitem, hzero, sameItem]
          | some actual =>
              simp only [showsItem, contentsOf, countIn_some, hempty, hitem, hzero, Option.any_some,
                sameItem_iff, Bool.not_false, Bool.true_and, Bool.false_or, decide_false,
                Bool.false_eq_true, if_false, Option.map_some, Option.some.injEq, Prod.mk.injEq]
      · simp [showsItem, contentsOf, hempty]

/-! ## What is planned -/

/-- An input is drawn from a stack of the main inventory. -/
structure Drawn (inv : Inventory) (entry : CraftInput) (source : InventorySlot) (item : ItemName) :
    Prop where
  mem : source ∈ inv.main
  slot : source.slot = entry.slot
  filled : source.empty = false
  sourceItem : source.item = some item
  entryItem : entry.item = some (normalizeRecipeItem item)
  pos : 0 < entry.count
  within : entry.count ≤ source.count

theorem exists_drawn {inv : Inventory} {variant : CraftRecipeVariant} {crafts : Nat}
    {inputs : List CraftInput} {items : Dict Int (Option ItemName)}
    (h : allocateRecipeInputs inv variant crafts = some (inputs, items)) :
    (inputs.map CraftInput.slot).Nodup ∧
      ∀ entry ∈ inputs, ∃ source item, Drawn inv entry source item := by
  obtain ⟨s, picks, hs, hserves, rfl, rfl⟩ := tallied_of_allocateRecipeInputs h
  refine ⟨(perm_inputs s).1.nodup_iff.mpr hs.nodup, fun entry hentry => ?_⟩
  obtain ⟨source, hmem, hslot, hentryItem, hwithin⟩ :=
    (hs.isAllocation hserves).within entry hentry
  obtain ⟨e, he, rfl⟩ := mem_inputs hentry
  have hpick := hs.picked e he
  obtain ⟨group, -, source', hmem', hslot', hfilled, hfits⟩ :=
    Matching.exists_admits hserves.admitted hpick
  obtain rfl := main_ext hmem hmem' (hslot.trans hslot'.symm)
  have hpos : 0 < e.2 := by
    have hcount := hs.counts e.1
    rw [left, (Dict.mem_iff_get? hs.nodup).mp he, Option.getD_some] at hcount
    rw [hcount]
    exact List.count_pos_iff.mpr hpick
  cases hitem : source.item with
  | none =>
      rw [hitem, fits] at hfits
      obtain ⟨option, -, hsame⟩ := List.any_eq_true.mp hfits
      cases hsame
  | some item =>
      rw [hitem] at hentryItem
      exact ⟨source, item, hmem, hslot, hfilled, hitem, hentryItem, hpos, hwithin⟩

/-- A remainder stays where an input took all there was. -/
def StaysIn (slots : List InventorySlot) (inputs : List CraftInput) (remainder : CraftRemainder) :
    Prop :=
  ∃ entry ∈ inputs, remainder.slot = entry.slot ∧ remainder.count = entry.count ∧
    ∃ source, (slotMap slots).get? entry.slot = some source ∧ source.count = entry.count

theorem planCraftRemainder_cases {slots : List InventorySlot} {items : Dict Int (Option ItemName)}
    {done done' : List CraftRemainder} {entry : CraftInput}
    (h : planCraftRemainder slots items done entry = .ok done') :
    done' = done ∨ ∃ remainder source, (slotMap slots).get? entry.slot = some source ∧
      source.count = entry.count ∧ done' = done ++ [⟨entry.slot, remainder, entry.count⟩] := by
  rw [planCraftRemainder] at h
  split at h
  · exact .inl (Except.ok.inj h).symm
  · split at h
    · next remainder source _ hsource =>
        split at h
        · cases h
        · next hcount => exact .inr ⟨remainder, source, hsource, not_not.mp hcount, (Except.ok.inj h).symm⟩
    · exact .inl (Except.ok.inj h).symm

theorem planCraftRemainders_spec {slots : List InventorySlot} {items : Dict Int (Option ItemName)}
    {inputs : List CraftInput} {done remainders : List CraftRemainder}
    (h : inputs.foldlM (planCraftRemainder slots items) done = .ok remainders) :
    ∃ more, remainders = done ++ more ∧
      (more.map CraftRemainder.slot).Sublist (inputs.map CraftInput.slot) ∧
      ∀ remainder ∈ more, StaysIn slots inputs remainder := by
  induction inputs generalizing done with
  | nil =>
      refine ⟨[], ?_, .slnil, fun _ h => absurd h List.not_mem_nil⟩
      rw [List.append_nil]
      exact (Except.ok.inj h).symm
  | cons entry inputs ih =>
      rw [List.foldlM_cons] at h
      obtain ⟨done', hstep, hrest⟩ := bind_eq_ok.mp h
      obtain ⟨more, rfl, hslots, hmore⟩ := ih hrest
      have hlater : ∀ remainder ∈ more, StaysIn slots (entry :: inputs) remainder := by
        intro remainder hmem
        obtain ⟨entry', hentry', hstays⟩ := hmore remainder hmem
        exact ⟨entry', List.mem_cons_of_mem _ hentry', hstays⟩
      rcases planCraftRemainder_cases hstep with rfl | ⟨item, source, hsource, hcount, rfl⟩
      · exact ⟨more, rfl, hslots.cons _, hlater⟩
      · refine ⟨⟨entry.slot, item, entry.count⟩ :: more, ?_, hslots.cons_cons _, ?_⟩
        · rw [List.append_assoc, List.singleton_append]
        · intro remainder hmem
          rcases List.mem_cons.mp hmem with rfl | hmem
          · exact ⟨entry, List.mem_cons_self, rfl, rfl, source, hsource, hcount⟩
          · exact hlater remainder hmem

/-- Where the output goes: nothing is there, or a stack that takes it. -/
structure Room (inv : Inventory) (item : ItemName) (count maxStack : Nat) (exclude : List Int)
    (index : Int) : Prop where
  inMain : inMain index = true
  apart : index ∉ exclude
  takes : vacant ((slotMap inv.slots).get? index) = true ∨
    ∃ slot, (slotMap inv.slots).get? index = some slot ∧ slot.empty = false ∧
      takesOutput item count maxStack slot = true

theorem findCraftOutputSlot_room {inv : Inventory} {item : ItemName} {count maxStack : Nat}
    {preferred : Option Int} {exclude : List Int} {index : Int}
    (h : findCraftOutputSlot inv.slots item count preferred exclude maxStack = some index) :
    Room inv item count maxStack exclude index := by
  cases preferred with
  | some preferred =>
      simp only [findCraftOutputSlot, slotByIndex_eq] at h
      split at h
      · cases h
      · next hguard =>
          obtain ⟨hmain, hapart⟩ : inMain preferred = true ∧ preferred ∉ exclude := by
            simpa using hguard
          split at h
          · next hslot =>
              obtain rfl := Option.some.inj h
              exact ⟨hmain, hapart, .inl (by rw [hslot]; rfl)⟩
          · next slot hslot =>
              split at h
              · next hempty =>
                  obtain rfl := Option.some.inj h
                  exact ⟨hmain, hapart, .inl (by rw [hslot]; exact hempty)⟩
              · next hfilled =>
                  split at h
                  · next htakes =>
                      obtain rfl := Option.some.inj h
                      exact ⟨hmain, hapart, .inr ⟨slot, hslot, Bool.eq_false_of_not_eq_true hfilled,
                        (Bool.and_eq_true_iff.mp htakes).2⟩⟩
                  · cases h
  | none =>
      simp only [findCraftOutputSlot] at h
      rcases Option.or_eq_some_iff.mp h with hpartly | ⟨-, hfree⟩
      · obtain ⟨slot, hfind, rfl⟩ := Option.map_eq_some_iff.mp hpartly
        have hslot := List.find?_some hfind
        simp only [Bool.and_eq_true, Bool.not_eq_true', decide_eq_true_eq] at hslot
        obtain ⟨⟨⟨hmain, hapart⟩, hfilled⟩, htakes⟩ := hslot
        exact ⟨hmain, hapart, .inr ⟨slot, slotMap_get?.mpr ⟨List.mem_of_find?_eq_some hfind, rfl⟩,
          hfilled, htakes⟩⟩
      · have hvacant := List.find?_some hfree
        simp only [Bool.and_eq_true, decide_eq_true_eq, slotByIndex_eq] at hvacant
        obtain ⟨n, hn, rfl⟩ := List.mem_map.mp (List.mem_of_find?_eq_some hfree)
        refine ⟨?_, hvacant.1, .inl hvacant.2⟩
        have := List.mem_range.mp hn
        simp only [inMain, Bool.and_eq_true, decide_eq_true_eq, Int.ofNat_eq_natCast]
        omega

/-- What holds of a plan, whichever variant it is for. -/
structure PlannedCraft (inv : Inventory) (maxStack : Nat) (plan : CraftPlan) : Prop where
  nodup : (plan.inputs.map CraftInput.slot).Nodup
  drawn : ∀ entry ∈ plan.inputs, ∃ source item, Drawn inv entry source item
  remainders : (plan.remainders.map CraftRemainder.slot).Sublist (plan.inputs.map CraftInput.slot)
  stays : ∀ remainder ∈ plan.remainders, StaysIn inv.slots plan.inputs remainder
  room : Room inv plan.item plan.craftedCount maxStack (plan.inputs.map CraftInput.slot)
    plan.outputSlot

section

variable {inv : Inventory} {item : ItemName} {count maxStack : Nat} {outputSlot : Option Int}
  {plan : CraftPlan}

theorem planVariant_planned {index : Nat} {variant : RecipeVariant}
    (h : planVariant inv item count outputSlot maxStack index variant = .ok plan) :
    PlannedCraft inv maxStack plan ∧ plan.item = item ∧ plan.craftedCount =
      (count + variant.outputCount - 1) / variant.outputCount * variant.outputCount := by
  simp only [planVariant] at h
  split at h
  · cases h
  · next inputs items hinputs =>
      obtain ⟨hnodup, hdrawn⟩ := exists_drawn hinputs
      split at h
      · cases h
      · next remainders hremainders =>
          obtain ⟨more, rfl, hslots, hstays⟩ := planCraftRemainders_spec hremainders
          split at h
          · cases h
          · next selected hselected =>
              obtain rfl := Except.ok.inj h
              exact ⟨⟨hnodup, hdrawn, hslots, hstays, findCraftOutputSlot_room hselected⟩, rfl, rfl⟩

theorem firstPlan_mem {variants : List (RecipeVariant × Nat)}
    (h : firstPlan inv item count outputSlot maxStack variants = .ok plan) :
    ∃ v ∈ variants, planVariant inv item count outputSlot maxStack v.2 v.1 = .ok plan := by
  induction variants with
  | nil => cases h
  | cons v variants ih =>
      rw [firstPlan] at h
      split at h
      · next plan' hplan =>
          obtain rfl := Except.ok.inj h
          exact ⟨v, List.mem_cons_self, hplan⟩
      · cases hrest : firstPlan inv item count outputSlot maxStack variants with
        | error failures =>
            rw [hrest] at h
            cases h
        | ok plan' =>
            rw [hrest] at h
            obtain ⟨v', hmem, hplan⟩ := ih (hrest.trans h)
            exact ⟨v', List.mem_cons_of_mem _ hmem, hplan⟩

/-- A plan is for one of the variants. -/
theorem chooseCraftPlan_planned {variants : List RecipeVariant}
    (h : chooseCraftPlan inv item count outputSlot variants maxStack = .ok plan) :
    PlannedCraft inv maxStack plan ∧ plan.item = normalizeRecipeItem item ∧
      ∃ variant ∈ variants, plan.craftedCount =
        (count + variant.outputCount - 1) / variant.outputCount * variant.outputCount := by
  simp only [chooseCraftPlan] at h
  cases hfirst : firstPlan inv (normalizeRecipeItem item) count outputSlot maxStack
      (variants.insertionSort Simpler).zipIdx with
  | error failures =>
      rw [hfirst] at h
      cases h
  | ok plan' =>
      rw [hfirst] at h
      obtain rfl := Except.ok.inj h
      obtain ⟨⟨variant, index⟩, hmem, hplan⟩ := firstPlan_mem hfirst
      obtain ⟨hplanned, hitem, hcrafted⟩ := planVariant_planned hplan
      have hvariant := (List.mem_insertionSort _).mp (List.fst_mem_of_mem_zipIdx hmem)
      exact ⟨hplanned, hitem, variant, hvariant, hcrafted⟩

/-- Rounded up to whole crafts, no less is made than asked for. -/
theorem le_crafted {outputCount : Nat} (hpos : 0 < outputCount) (count : Nat) :
    count ≤ (count + outputCount - 1) / outputCount * outputCount := by
  have hdiv := Nat.div_add_mod (count + outputCount - 1) outputCount
  have hmod := Nat.mod_lt (count + outputCount - 1) hpos
  rw [Nat.mul_comm] at hdiv
  omega

theorem crafted_pos {variants : List RecipeVariant} (hcount : 0 < count)
    (h : chooseCraftPlan inv item count outputSlot variants maxStack = .ok plan) :
    0 < plan.craftedCount := by
  obtain ⟨-, -, variant, -, hcrafted⟩ := chooseCraftPlan_planned h
  rw [hcrafted]
  exact hcount.trans_le (le_crafted variant.yields count)

end

/-! ## The batches of `craft_recipe` -/

/-- `min(batch_limit // variant.output_count * variant.output_count for variant in variants)` -/
def batchSize (batchLimit : Nat) (variants : List RecipeVariant) : Option Nat :=
  (variants.map fun variant => batchLimit / variant.outputCount * variant.outputCount).min?

/-- Within a batch, rounding up stays within its limit. -/
theorem crafted_le_batchLimit {inv : Inventory} {item : ItemName} {count maxStack batchLimit : Nat}
    {outputSlot : Option Int} {variants : List RecipeVariant} {plan : CraftPlan} {size : Nat}
    (hsize : batchSize batchLimit variants = some size) (hcount : count ≤ size)
    (h : chooseCraftPlan inv item count outputSlot variants maxStack = .ok plan) :
    plan.craftedCount ≤ batchLimit := by
  obtain ⟨-, -, variant, hvariant, hcrafted⟩ := chooseCraftPlan_planned h
  have hle : size ≤ batchLimit / variant.outputCount * variant.outputCount :=
    (List.min?_eq_some_iff.mp hsize).2 _ (List.mem_map_of_mem hvariant)
  have hcrafts : (count + variant.outputCount - 1) / variant.outputCount ≤
      batchLimit / variant.outputCount := by
    have hround : count + variant.outputCount - 1 <
        (batchLimit / variant.outputCount + 1) * variant.outputCount := by
      have := variant.yields
      rw [Nat.add_mul, Nat.one_mul]
      omega
    exact Nat.lt_succ_iff.mp (Nat.div_lt_of_lt_mul (by rwa [Nat.mul_comm]))
  rw [hcrafted]
  exact (Nat.mul_le_mul_right _ hcrafts).trans (Nat.div_mul_le_self ..)

/-! ## The expectation, slot by slot -/

def CraftPlan.involved (plan : CraftPlan) : List Int :=
  plan.outputSlot :: plan.inputs.map CraftInput.slot

section

variable {inv : Inventory} {maxStack : Nat} {plan : CraftPlan}

theorem PlannedCraft.remainders_nodup (h : PlannedCraft inv maxStack plan) :
    (plan.remainders.map CraftRemainder.slot).Nodup := h.nodup.sublist h.remainders

theorem PlannedCraft.leaves_of_not_mem (h : PlannedCraft inv maxStack plan) {index : Int}
    (hindex : index ∉ plan.inputs.map CraftInput.slot) :
    plan.leaves inv index = inv.contents index := by
  rw [CraftPlan.leaves, changeSlots_of_not_mem fun hmem => hindex (h.remainders.subset hmem),
    changeSlots_of_not_mem hindex]

theorem PlannedCraft.expected_output (h : PlannedCraft inv maxStack plan) :
    plan.expected inv plan.outputSlot =
      (inv.contents plan.outputSlot).plus plan.item plan.craftedCount := by
  rw [CraftPlan.expected, Function.update_self, h.leaves_of_not_mem h.room.apart]

theorem PlannedCraft.expected_of_not_mem (h : PlannedCraft inv maxStack plan) {index : Int}
    (hindex : index ∉ plan.involved) : plan.expected inv index = inv.contents index := by
  obtain ⟨hout, hin⟩ := not_or.mp (List.mem_cons.not.mp hindex)
  rw [CraftPlan.expected, Function.update_of_ne hout, h.leaves_of_not_mem hin]

theorem PlannedCraft.expected_input (h : PlannedCraft inv maxStack plan) {entry : CraftInput}
    (hentry : entry ∈ plan.inputs) :
    plan.expected inv entry.slot = plan.leaves inv entry.slot := by
  refine Function.update_of_ne (fun heq => h.room.apart ?_) ..
  exact heq ▸ List.mem_map_of_mem hentry

theorem PlannedCraft.leaves_remainder (h : PlannedCraft inv maxStack plan)
    {remainder : CraftRemainder} (hmem : remainder ∈ plan.remainders) :
    plan.leaves inv remainder.slot = some (some remainder.item.path, remainder.count) :=
  changeSlots_of_mem h.remainders_nodup hmem _

theorem PlannedCraft.leaves_rest (h : PlannedCraft inv maxStack plan) {entry : CraftInput}
    (hentry : entry ∈ plan.inputs) (hrest : entry.slot ∉ plan.remainders.map CraftRemainder.slot) :
    plan.leaves inv entry.slot = (inv.contents entry.slot).less entry.count := by
  rw [CraftPlan.leaves, changeSlots_of_not_mem hrest, changeSlots_of_mem h.nodup hentry]

theorem remainderMap_get? {remainders : List CraftRemainder}
    (hnodup : (remainders.map CraftRemainder.slot).Nodup) {index : Int} {remainder : CraftRemainder} :
    (Dict.update [] (remainders.map fun entry => (entry.slot, entry))).get? index = some remainder ↔
      remainder ∈ remainders ∧ remainder.slot = index := by
  have hkeys : ((remainders.map fun entry => (entry.slot, entry)).map Prod.fst).Nodup := by
    rw [List.map_map]
    exact hnodup
  rw [Dict.get?_update hkeys, Dict.get?_nil, Option.or_none, ← Dict.mem_iff_get? hkeys, List.mem_map]
  constructor
  · rintro ⟨entry, hmem, heq⟩
    cases heq
    exact ⟨hmem, rfl⟩
  · rintro ⟨hmem, rfl⟩
    exact ⟨remainder, hmem, rfl⟩

/-! ## What is verified -/

theorem inputMatches_eq {entry : CraftInput} {source : InventorySlot} {item : ItemName}
    (h : Drawn inv entry source item) (after : Option InventorySlot)
    (remainder : Option CraftRemainder) :
    inputMatches (some source) after remainder entry =
      match remainder with
      | some remainder =>
          decide (source.count - entry.count = 0) && showsItem after (some remainder.item)
            && decide (countIn after = remainder.count)
      | none =>
          decide (countIn after = source.count - entry.count)
            && (decide (source.count - entry.count = 0) || showsItem after entry.item) := by
  have hsame : sameItem (some item) (normalizeRecipeItem item) = true :=
    sameItem_iff.mpr (path_normalizeRecipeItem item).symm
  have hguard : (source.empty || !entry.item.any (sameItem source.item)
      || decide (source.count < entry.count)) = false := by
    rw [h.filled, h.entryItem, h.sourceItem, Option.any_some, hsame,
      decide_eq_false (Nat.not_lt.mpr h.within)]
    rfl
  simp only [inputMatches, hguard, Bool.false_eq_true, if_false]

/-- A slot that keeps a remainder. -/
theorem inputMatches_remainder {entry : CraftInput} {source : InventorySlot} {item : ItemName}
    (h : Drawn inv entry source item) (after : Option InventorySlot) {remainder : CraftRemainder}
    (hcount : remainder.count = entry.count) (hall : source.count = entry.count) :
    inputMatches (some source) after (some remainder) entry = true ↔
      contentsOf after = some (some remainder.item.path, remainder.count) := by
  have hpos : 0 < remainder.count := hcount ▸ h.pos
  have hzero : source.count - entry.count = 0 := Nat.sub_eq_zero_of_le hall.le
  rw [inputMatches_eq h, ← showsItem_and_count hpos]
  simp only [hzero, decide_true, Bool.true_and, Bool.and_eq_true, decide_eq_true_eq]

/-- A slot that keeps the rest of its stack. -/
theorem inputMatches_rest {entry : CraftInput} {source : InventorySlot} {item : ItemName}
    (h : Drawn inv entry source item) (after : Option InventorySlot) :
    inputMatches (some source) after none entry = true ↔
      contentsOf after = (contentsOf (some source)).less entry.count := by
  have hcontents : contentsOf (some source) = some (some item.path, source.count) := by
    have hne : source.count ≠ 0 := (h.pos.trans_le h.within).ne'
    simp [contentsOf, h.filled, h.sourceItem, hne]
  have hpath := path_normalizeRecipeItem item
  rw [inputMatches_eq h, hcontents, Contents.less, Option.bind_some]
  simp only [Bool.and_eq_true, Bool.or_eq_true, decide_eq_true_eq]
  by_cases hle : source.count ≤ entry.count
  · have hzero : source.count - entry.count = 0 := Nat.sub_eq_zero_of_le hle
    rw [if_pos hle, contentsOf_eq_none]
    simp only [hzero, true_or, and_true]
  · have hpos : 0 < source.count - entry.count := Nat.sub_pos_of_lt (Nat.not_le.mp hle)
    rw [if_neg hle, ← hpath, ← showsItem_and_count hpos, h.entryItem]
    simp only [hpos.ne', false_or, and_comm]

theorem outputMatches_iff {before after : Option InventorySlot} {output : CraftOutput}
    (hroom : vacant before = true ∨ showsItem before (some output.item) = true)
    (hpos : 0 < output.count) :
    outputMatches before after output = true ↔
      contentsOf after = (contentsOf before).plus output.item output.count := by
  have hbefore : (vacant before || showsItem before (some output.item)) = true :=
    Bool.or_eq_true_iff.mpr hroom
  have hcount : 0 < countIn before + output.count := Nat.add_pos_right _ hpos
  rw [outputMatches, hbefore, Contents.plus, count_contentsOf, ← showsItem_and_count hcount]
  simp only [Bool.true_and, Bool.and_eq_true, decide_eq_true_eq]

theorem PlannedCraft.output_shows (h : PlannedCraft inv maxStack plan) :
    vacant ((slotMap inv.slots).get? plan.outputSlot) = true ∨
      showsItem ((slotMap inv.slots).get? plan.outputSlot) (some plan.item) = true := by
  refine h.room.takes.imp id ?_
  rintro ⟨slot, hslot, hfilled, htakes⟩
  rw [hslot, showsItem, Option.any_some, hfilled, Option.any_some]
  exact (Bool.and_eq_true_iff.mp htakes).1

/-- The first loop is about the input slots. -/
theorem PlannedCraft.inputs_match (h : PlannedCraft inv maxStack plan) (after : Inventory)
    {entry : CraftInput} (hentry : entry ∈ plan.inputs) :
    inputMatches ((slotMap inv.slots).get? entry.slot) ((slotMap after.slots).get? entry.slot)
        ((Dict.update [] (plan.remainders.map fun entry => (entry.slot, entry))).get? entry.slot)
        entry = true ↔
      after.contents entry.slot = plan.expected inv entry.slot := by
  obtain ⟨source, item, hdrawn⟩ := h.drawn entry hentry
  have hsource : (slotMap inv.slots).get? entry.slot = some source :=
    slotMap_get?.mpr ⟨(mem_main.mp hdrawn.mem).1, hdrawn.slot⟩
  rw [h.expected_input hentry, hsource]
  cases hremainder : (Dict.update [] (plan.remainders.map fun entry =>
      (entry.slot, entry))).get? entry.slot with
  | some remainder =>
      obtain ⟨hmem, hslot⟩ := (remainderMap_get? h.remainders_nodup).mp hremainder
      obtain ⟨entry', hentry', hslot', hcount, source', hsource', hall⟩ := h.stays remainder hmem
      obtain rfl : entry' = entry :=
        List.inj_on_of_nodup_map h.nodup hentry' hentry (hslot'.symm.trans hslot)
      obtain rfl := Option.some.inj (hsource.symm.trans hsource')
      rw [inputMatches_remainder hdrawn _ hcount hall, ← hslot, h.leaves_remainder hmem]
      rfl
  | none =>
      have hrest : entry.slot ∉ plan.remainders.map CraftRemainder.slot := by
        intro hmem
        obtain ⟨remainder, hremainders, hslot⟩ := List.mem_map.mp hmem
        have hsome := (remainderMap_get? h.remainders_nodup).mpr ⟨hremainders, hslot⟩
        rw [hremainder] at hsome
        cases hsome
      rw [inputMatches_rest hdrawn, h.leaves_rest hentry hrest, Inventory.contents,
        Inventory.contents, hsource]

/-- The last loop is about every other slot. -/
theorem others_match (before after : Inventory) (involved : List Int) :
    (((slotMap before.slots).map Prod.fst ++ (slotMap after.slots).map Prod.fst).all fun index =>
        decide (index ∈ involved) || decide (slotSignature ((slotMap before.slots).get? index) =
          slotSignature ((slotMap after.slots).get? index))) = true ↔
      ∀ index ∉ involved, slotSignature ((slotMap before.slots).get? index) =
        slotSignature ((slotMap after.slots).get? index) := by
  simp only [List.all_eq_true, Bool.or_eq_true, decide_eq_true_eq]
  constructor
  · intro h index hindex
    by_cases hmem : index ∈ (slotMap before.slots).map Prod.fst ++ (slotMap after.slots).map Prod.fst
    · exact (h index hmem).resolve_left hindex
    · obtain ⟨hbefore, hafter⟩ := not_or.mp (List.mem_append.not.mp hmem)
      rw [Dict.get?_eq_none hbefore, Dict.get?_eq_none hafter]
  · intro h index _
    exact or_iff_not_imp_left.mpr (h index)

/-- **What is accepted**: each slot of the craft holds what was expected, and
each other slot reads as before. -/
theorem PlannedCraft.matches_iff (h : PlannedCraft inv maxStack plan) (hpos : 0 < plan.craftedCount)
    (after : Inventory) :
    craftMatchesExpectation inv after plan.inputs plan.output plan.remainders = true ↔
      (∀ index ∈ plan.involved, after.contents index = plan.expected inv index) ∧
      ∀ index ∉ plan.involved, slotSignature ((slotMap inv.slots).get? index) =
        slotSignature ((slotMap after.slots).get? index) := by
  have houtput : outputMatches ((slotMap inv.slots).get? plan.output.slot)
      ((slotMap after.slots).get? plan.output.slot) plan.output = true ↔
        after.contents plan.outputSlot = plan.expected inv plan.outputSlot := by
    rw [h.expected_output]
    exact outputMatches_iff h.output_shows hpos
  rw [craftMatchesExpectation, Bool.and_eq_true, Bool.and_eq_true, List.all_eq_true, houtput]
  refine and_congr ⟨?_, ?_⟩ (others_match inv after plan.involved)
  · rintro ⟨hinputs, hout⟩ index hindex
    rcases List.mem_cons.mp hindex with rfl | hindex
    · exact hout
    · obtain ⟨entry, hentry, rfl⟩ := List.mem_map.mp hindex
      exact (h.inputs_match after hentry).mp (hinputs entry hentry)
  · intro hall
    refine ⟨fun entry hentry => (h.inputs_match after hentry).mpr ?_, hall _ List.mem_cons_self⟩
    exact hall _ (List.mem_cons_of_mem _ (List.mem_map_of_mem hentry))

end

/-! ## Inventories as a Body reports them -/

/-- An empty slot names no item and counts none, a filled one has both, and
the items are all written with their namespace or all without. -/
def PlainSlot (qualified : Bool) (slot : InventorySlot) : Prop :=
  (slot.empty = true ∧ slot.item = none ∧ slot.count = 0) ∨
    (slot.empty = false ∧ 0 < slot.count ∧ ∃ item, slot.item = some item ∧ item.qualified = qualified)

def Inventory.Plain (inv : Inventory) (qualified : Bool) : Prop :=
  ∀ slot ∈ inv.slots, PlainSlot qualified slot

/-- How a plain slot reads that holds so much. -/
def signatureOf (qualified : Bool) : Contents → Option String × Nat × Bool
  | none => (none, 0, true)
  | some (path, count) => (path.map fun path => if qualified then namespacePrefix ++ path else path,
      count, false)

theorem signatureOf_injective (qualified : Bool) : Function.Injective (signatureOf qualified) := by
  have hpath : Function.Injective fun path : String =>
      if qualified then namespacePrefix ++ path else path := by
    intro path path' h
    cases qualified
    · exact h
    · exact (String.append_right_inj _).mp h
  rintro (_ | ⟨path, count⟩) (_ | ⟨path', count'⟩) h
  · rfl
  · have hempty : true = false := congrArg (fun signature => signature.2.2) h
    cases hempty
  · have hempty : false = true := congrArg (fun signature => signature.2.2) h
    cases hempty
  · obtain ⟨hitem, hrest⟩ := Prod.mk.inj h
    obtain ⟨hcount, -⟩ := Prod.mk.inj hrest
    rw [Option.map_injective hpath hitem, hcount]

theorem slotSignature_of_plain {qualified : Bool} {inv : Inventory} (h : inv.Plain qualified)
    (index : Int) :
    slotSignature ((slotMap inv.slots).get? index) = signatureOf qualified (inv.contents index) := by
  rw [Inventory.contents]
  cases hslot : (slotMap inv.slots).get? index with
  | none => rfl
  | some slot =>
      obtain ⟨hempty, hitem, hcount⟩ | ⟨hfilled, hpos, item, hitem, hqualified⟩ :=
        h slot (slotMap_get?.mp hslot).1
      · simp [slotSignature, contentsOf, signatureOf, hempty, hitem, hcount]
      · simp [slotSignature, contentsOf, signatureOf, hfilled, hitem, hpos.ne', ItemName.text,
          hqualified]

/-- Between plain inventories, what is accepted is what was expected, in every
slot. -/
theorem PlannedCraft.matches_iff_expected {inv : Inventory} {maxStack : Nat} {plan : CraftPlan}
    (h : PlannedCraft inv maxStack plan) (hpos : 0 < plan.craftedCount) {qualified : Bool}
    (hinv : inv.Plain qualified) {after : Inventory} (hafter : after.Plain qualified) :
    craftMatchesExpectation inv after plan.inputs plan.output plan.remainders = true ↔
      ∀ index, after.contents index = plan.expected inv index := by
  rw [h.matches_iff hpos]
  have hother : ∀ index ∉ plan.involved,
      slotSignature ((slotMap inv.slots).get? index) =
          slotSignature ((slotMap after.slots).get? index) ↔
        after.contents index = plan.expected inv index := by
    intro index hindex
    rw [slotSignature_of_plain hinv, slotSignature_of_plain hafter, h.expected_of_not_mem hindex]
    exact (signatureOf_injective qualified).eq_iff.trans eq_comm
  constructor
  · rintro ⟨hinvolved, hrest⟩ index
    by_cases hindex : index ∈ plan.involved
    · exact hinvolved index hindex
    · exact (hother index hindex).mp (hrest index hindex)
  · intro hall
    exact ⟨fun index _ => hall index, fun index hindex => (hother index hindex).mpr (hall index)⟩

/-- What the output slot comes to. -/
theorem PlannedCraft.output_count {inv : Inventory} {maxStack : Nat} {plan : CraftPlan}
    (h : PlannedCraft inv maxStack plan) :
    (plan.expected inv plan.outputSlot).count ≤ maxStack ∨
      vacant ((slotMap inv.slots).get? plan.outputSlot) = true ∧
        (plan.expected inv plan.outputSlot).count = plan.craftedCount := by
  have hcount : (plan.expected inv plan.outputSlot).count =
      countIn ((slotMap inv.slots).get? plan.outputSlot) + plan.craftedCount := by
    rw [h.expected_output, ← count_contentsOf]
    rfl
  rw [hcount]
  rcases h.room.takes with hvacant | ⟨slot, hslot, hfilled, htakes⟩
  · right
    rw [countIn, if_pos hvacant, Nat.zero_add]
    exact ⟨hvacant, rfl⟩
  · left
    rw [hslot, countIn_some, hfilled]
    exact of_decide_eq_true (Bool.and_eq_true_iff.mp htakes).2

/-- **A plan and what verifies it are about the same craft.** The output may
exceed a stack only in an empty slot. -/
theorem chooseCraftPlan_spec {inv : Inventory} {item : ItemName} {count maxStack : Nat}
    {outputSlot : Option Int} {variants : List RecipeVariant} {plan : CraftPlan}
    (hcount : 0 < count)
    (h : chooseCraftPlan inv item count outputSlot variants maxStack = .ok plan) :
    plan.item = normalizeRecipeItem item ∧
    ((plan.inputs.map CraftInput.slot).Nodup ∧
      ∀ entry ∈ plan.inputs, ∃ slot ∈ inv.main, slot.slot = entry.slot) ∧
    (plan.outputSlot ∉ plan.inputs.map CraftInput.slot ∧
      (vacant ((slotMap inv.slots).get? plan.outputSlot) = true ∨
        showsItem ((slotMap inv.slots).get? plan.outputSlot) (some plan.item) = true)) ∧
    ((plan.expected inv plan.outputSlot).count ≤ maxStack ∨
      vacant ((slotMap inv.slots).get? plan.outputSlot) = true ∧
        (plan.expected inv plan.outputSlot).count = plan.craftedCount) ∧
    ∀ after : Inventory,
      (craftMatchesExpectation inv after plan.inputs plan.output plan.remainders = true ↔
        (∀ index ∈ plan.involved, after.contents index = plan.expected inv index) ∧
        ∀ index ∉ plan.involved, slotSignature ((slotMap inv.slots).get? index) =
          slotSignature ((slotMap after.slots).get? index)) ∧
      ∀ qualified, inv.Plain qualified → after.Plain qualified →
        (craftMatchesExpectation inv after plan.inputs plan.output plan.remainders = true ↔
          ∀ index, after.contents index = plan.expected inv index) := by
  obtain ⟨hplanned, hitem, -⟩ := chooseCraftPlan_planned h
  have hpos := crafted_pos hcount h
  refine ⟨hitem, ⟨hplanned.nodup, fun entry hentry => ?_⟩,
    ⟨hplanned.room.apart, hplanned.output_shows⟩, hplanned.output_count, fun after =>
    ⟨hplanned.matches_iff hpos after, fun qualified hinv hafter =>
      hplanned.matches_iff_expected hpos hinv hafter⟩⟩
  obtain ⟨source, item', hdrawn⟩ := hplanned.drawn entry hentry
  exact ⟨source, hdrawn.mem, hdrawn.slot⟩

/-! ## Boats -/

def planks : ItemName := ⟨true, "spruce_planks", by decide, by decide⟩

def boat : ItemName := ⟨true, "spruce_boat", by decide, by decide⟩

/-- Five planks make a boat. -/
def boatRecipe : RecipeVariant where
  ingredientGroups := [some [planks], none, some [planks], some [planks], some [planks],
    some [planks]]
  outputCount := 1
  width := 3
  height := 2
  requiresTable := true
  yields := by decide

/-- Planks and nothing else. -/
def tenPlanks : Inventory where
  slots := [⟨0, some planks, 10, false⟩]
  distinct := by decide

def twoBoats : CraftPlan := ⟨boat, 2, 2, 1, 0, boatRecipe, [⟨0, some planks, 10⟩], []⟩

theorem chooseCraftPlan_twoBoats :
    chooseCraftPlan tenPlanks boat 2 none [boatRecipe] 1 = .ok twoBoats := by rfl

/-- The planks gone and the boats made. -/
def boatsMade : Inventory where
  slots := [⟨0, none, 0, true⟩, ⟨1, some boat, 2, false⟩]
  distinct := by decide

/-- The plan for two boats is verified as what it is. -/
theorem twoBoats_verified :
    craftMatchesExpectation tenPlanks boatsMade twoBoats.inputs twoBoats.output
        twoBoats.remainders = true ↔
      ∀ index, boatsMade.contents index = twoBoats.expected tenPlanks index := by
  obtain ⟨-, -, -, -, hmatches⟩ := chooseCraftPlan_spec (by decide) chooseCraftPlan_twoBoats
  refine (hmatches boatsMade).2 true (fun slot hslot => ?_) fun slot hslot => ?_
  · obtain rfl := List.mem_singleton.mp hslot
    exact .inr ⟨rfl, by decide, planks, rfl, rfl⟩
  · rcases List.mem_cons.mp hslot with rfl | hslot
    · exact .inl ⟨rfl, rfl, rfl⟩
    · obtain rfl := List.mem_singleton.mp hslot
      exact .inr ⟨rfl, by decide, boat, rfl, rfl⟩

/-- Boats do not stack, and two of them go into one empty slot. -/
theorem boats_overfill_slot :
    ∃ plan, chooseCraftPlan tenPlanks boat 2 none [boatRecipe] 1 = .ok plan ∧
      ¬ (plan.expected tenPlanks plan.outputSlot).count ≤ 1 :=
  ⟨twoBoats, chooseCraftPlan_twoBoats, by decide⟩

end Craft

end MineBot
