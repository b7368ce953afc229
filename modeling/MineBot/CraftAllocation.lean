import Mathlib
import MineBot.Dict
import MineBot.GreedyMatching
import MineBot.IntOrder

/-!
# Craft input allocation

Which stacks a craft takes its ingredients from. `allocateRecipeInputs` takes
them one by one, always from the largest stack that fits, the narrowest
groups first; `missingRecipeInputs` counts what is short over a pool of items
without their stacks.

The loop of the first is `Matching.greedy` (`loop_eq`), and what it counts is
an allocation (`allocateRecipeInputs_spec`).
-/

namespace MineBot

namespace Craft

open Matching

open scoped IntOrder

/-! ## Items -/

def namespacePrefix : String := "minecraft:"

/-- The name of an item, with its namespace or without. -/
structure ItemName where
  qualified : Bool
  path : String
  named : path ≠ ""
  once : namespacePrefix.toList.isPrefixOf path.toList = false
deriving DecidableEq

def ItemName.text (name : ItemName) : String :=
  if name.qualified then namespacePrefix ++ name.path else name.path

/-- `_normalize_recipe_item`. -/
def normalizeRecipeItem (name : ItemName) : ItemName :=
  if namespacePrefix.toList.isPrefixOf name.text.toList then name else { name with qualified := true }

/-- `_same_item`. -/
def sameItem (actual : Option ItemName) (wanted : ItemName) : Bool :=
  match actual with
  | none => false
  | some actual => actual.text = wanted.text || actual.text = namespacePrefix ++ wanted.text
      || namespacePrefix ++ actual.text = wanted.text

structure InventorySlot where
  slot : Int
  item : Option ItemName
  count : Nat
  empty : Bool
deriving DecidableEq

/-- The slots of an inventory, one for each index. -/
structure Inventory where
  slots : List InventorySlot
  distinct : (slots.map InventorySlot.slot).Nodup

abbrev Group := List ItemName

/-- A recipe: what may be put into each place of its grid. -/
structure CraftRecipeVariant where
  ingredientGroups : List (Option Group)

/-- The places of the grid that take an ingredient. -/
def CraftRecipeVariant.groups (variant : CraftRecipeVariant) : List Group :=
  (variant.ingredientGroups.filterMap id).filter (· ≠ [])

/-- `slots` of the main inventory. -/
def Inventory.main (inv : Inventory) : List InventorySlot :=
  inv.slots.filter fun slot => 0 ≤ slot.slot && slot.slot < 36

/-- `any(_same_item(item, option) for option in group)` -/
def fits (item : Option ItemName) (group : Group) : Bool := group.any (sameItem item)

/-! ## Allocation -/

/-- An ingredient from each place of the grid, so many times. -/
def required (variant : CraftRecipeVariant) (crafts : Nat) : List Group :=
  variant.groups.flatMap (List.replicate crafts)

/-- The narrow groups first. -/
def requirements (variant : CraftRecipeVariant) (crafts : Nat) : List Group :=
  (required variant crafts).insertionSort fun group group' => group.length ≤ group'.length

structure Allocation where
  remaining : Dict Int Nat
  allocated : Dict Int Nat
  chosenItems : Dict Int (Option ItemName)

/-- `counts.get(key, 0)` -/
def left {κ : Type} [DecidableEq κ] (counts : Dict κ Nat) (key : κ) : Nat := (counts.get? key).getD 0

/-- `sorted(…, key=lambda slot: (-remaining[slot.slot], slot.slot))` -/
def Before (remaining : Int → Nat) (slot slot' : InventorySlot) : Prop :=
  remaining slot'.slot < remaining slot.slot ∨
    remaining slot.slot = remaining slot'.slot ∧ slot.slot ≤ slot'.slot

instance (remaining : Int → Nat) : DecidableRel (Before remaining) :=
  fun _ _ => inferInstanceAs (Decidable (_ ∨ _))

/-- The slot that the next ingredient is taken from. -/
def chosen? (slots : List InventorySlot) (remaining : Int → Nat) (group : Group) :
    Option InventorySlot :=
  let candidates := slots.filter fun slot =>
    !slot.empty && 0 < remaining slot.slot && fits slot.item group
  (candidates.insertionSort (Before remaining)).head?

/-- An ingredient is taken. -/
def Allocation.step (slots : List InventorySlot) (s : Allocation) (group : Group) :
    Option Allocation :=
  (chosen? slots (left s.remaining) group).map fun chosen =>
    { remaining := s.remaining.set chosen.slot (left s.remaining chosen.slot - 1)
      allocated := s.allocated.set chosen.slot (left s.allocated chosen.slot + 1)
      chosenItems := s.chosenItems.set chosen.slot (chosen.item.map normalizeRecipeItem) }

structure CraftInput where
  slot : Int
  item : Option ItemName
  count : Nat
deriving DecidableEq

/-- `{slot.slot: slot.count for slot in slots if not slot.empty}` -/
def stock (slots : List InventorySlot) : Dict Int Nat :=
  (slots.filter fun slot => !slot.empty).map fun slot => (slot.slot, slot.count)

/-- The inputs, by slots. -/
def Allocation.inputs (s : Allocation) : List CraftInput :=
  (s.allocated.insertionSort fun e e' => e.1 ≤ e'.1).map fun e =>
    ⟨e.1, (s.chosenItems.get? e.1).getD none, e.2⟩

/-- No slot gives more than it holds. -/
def covered (slots : List InventorySlot) (inputs : List CraftInput) : Bool :=
  let slotMap : Dict Int InventorySlot := slots.map fun slot => (slot.slot, slot)
  inputs.all fun entry => (slotMap.get? entry.slot).any (entry.count ≤ ·.count)

/-- `_allocate_recipe_inputs`. -/
def allocateRecipeInputs (inv : Inventory) (variant : CraftRecipeVariant) (crafts : Nat) :
    Option (List CraftInput × Dict Int (Option ItemName)) :=
  let slots := inv.main
  ((requirements variant crafts).foldlM (Allocation.step slots) ⟨stock slots, [], []⟩).bind fun s =>
    if covered slots s.inputs then some (s.inputs, s.chosenItems) else none

/-! ## Missing inputs -/

structure MissingInput where
  anyOf : Group
  need : Nat
  held : Nat

/-- The items of a slot are added to the pool. -/
def addToPool (pool : Dict ItemName Nat) (slot : InventorySlot) : Dict ItemName Nat :=
  match slot.item with
  | some item =>
      if slot.empty then pool
      else pool.set (normalizeRecipeItem item) (left pool (normalizeRecipeItem item) + slot.count)
  | none => pool

/-- The items of the main inventory, without their stacks. -/
def pool (slots : List InventorySlot) : Dict ItemName Nat := slots.foldl addToPool []

/-- How many each group needs. -/
def needed (variant : CraftRecipeVariant) (crafts : Nat) : Dict Group Nat :=
  variant.groups.foldl (fun needed group =>
    needed.set group (left needed group + crafts)) []

/-- What is taken of one item for one of the options. -/
def takeKey (option : ItemName) (need : Nat) (s : Nat × Dict ItemName Nat) (key : ItemName) :
    Nat × Dict ItemName Nat :=
  if s.1 < need && sameItem (some key) option then
    let taken := min (left s.2 key) (need - s.1)
    (s.1 + taken, s.2.set key (left s.2 key - taken))
  else s

/-- What a group takes from the pool, option after option. -/
def drain (group : Group) (need : Nat) (pool : Dict ItemName Nat) : Nat × Dict ItemName Nat :=
  group.foldl (fun s option => (s.2.map Prod.fst).foldl (takeKey option need) s) (0, pool)

/-- The groups in turn. -/
def missingFrom (pool : Dict ItemName Nat) : List (Group × Nat) → List MissingInput
  | [] => []
  | (group, need) :: rest =>
      let (held, pool') := drain group need pool
      (if held < need then [⟨group, need, held⟩] else []) ++ missingFrom pool' rest

/-- `_missing_recipe_inputs`. -/
def missingRecipeInputs (inv : Inventory) (variant : CraftRecipeVariant) (crafts : Nat) :
    List MissingInput :=
  missingFrom (pool inv.main)
    ((needed variant crafts).insertionSort fun e e' => e.1.length ≤ e'.1.length)

/-! ## Items by their paths -/

theorem prefix_append_ne (name name' : ItemName) :
    name'.path ≠ namespacePrefix ++ name.path ∧
      name'.path ≠ namespacePrefix ++ (namespacePrefix ++ name.path) := by
  have honce := name'.once
  constructor
  all_goals
    intro h
    rw [h, String.toList_append, List.isPrefixOf_iff_prefix.mpr (List.prefix_append _ _)] at honce
    cases honce

/-- Items are the same up to the namespace. -/
theorem sameItem_iff {actual wanted : ItemName} :
    sameItem (some actual) wanted = true ↔ actual.path = wanted.path := by
  obtain ⟨h₁, h₂⟩ := prefix_append_ne actual wanted
  obtain ⟨h₃, h₄⟩ := prefix_append_ne wanted actual
  have hinj : ∀ {p q : String}, namespacePrefix ++ p = namespacePrefix ++ q ↔ p = q :=
    String.append_right_inj _
  cases hactual : actual.qualified <;> cases hwanted : wanted.qualified <;>
    simp [sameItem, ItemName.text, hactual, hwanted, hinj, h₃, h₄, Ne.symm h₁, Ne.symm h₂]

theorem path_normalizeRecipeItem (name : ItemName) : (normalizeRecipeItem name).path = name.path := by
  rw [normalizeRecipeItem]
  split <;> rfl

theorem qualified_normalizeRecipeItem (name : ItemName) :
    (normalizeRecipeItem name).qualified = true := by
  rw [normalizeRecipeItem]
  split
  · next h =>
      by_contra hplain
      rw [ItemName.text, if_neg hplain, name.once] at h
      cases h
  · rfl

theorem fits_iff {item : ItemName} {group : Group} :
    fits (some item) group = true ↔ ∃ option ∈ group, item.path = option.path := by
  simp only [fits, List.any_eq_true, sameItem_iff]

/-- An item fits as its normal form does. -/
theorem fits_normalizeRecipeItem (item : ItemName) (group : Group) :
    fits (some (normalizeRecipeItem item)) group = fits (some item) group := by
  rw [Bool.eq_iff_iff, fits_iff, fits_iff, path_normalizeRecipeItem]

/-! ## What is asked for -/

/-- The slot may give an ingredient to the group. -/
def Gives (inv : Inventory) (group : Group) (i : Int) : Prop :=
  ∃ slot ∈ inv.main, slot.slot = i ∧ slot.empty = false ∧ fits slot.item group = true

/-- What a slot of the main inventory holds. -/
def held (inv : Inventory) : Int → Nat := left (stock inv.main)

/-- The main inventory can supply the ingredients of so many crafts at once,
each item to one place of the grid. -/
def Suppliable (inv : Inventory) (variant : CraftRecipeVariant) (crafts : Nat) : Prop :=
  Feasible (Gives inv) (held inv) (required variant crafts)

/-- The inputs count, slot by slot, what some way to supply the ingredients
takes. -/
structure IsAllocation (inv : Inventory) (variant : CraftRecipeVariant) (crafts : Nat)
    (inputs : List CraftInput) : Prop where
  assigned : ∃ picks, Serves (Gives inv) (held inv) (required variant crafts) picks ∧
    (inputs.map CraftInput.slot).Nodup ∧ (∀ i ∈ picks, i ∈ inputs.map CraftInput.slot) ∧
    ∀ entry ∈ inputs, entry.count = picks.count entry.slot
  within : ∀ entry ∈ inputs, ∃ slot ∈ inv.main, slot.slot = entry.slot ∧
    entry.item = slot.item.map normalizeRecipeItem ∧ entry.count ≤ slot.count
  total : (inputs.map CraftInput.count).sum = crafts * variant.groups.length

theorem nodup_main (inv : Inventory) : (inv.main.map InventorySlot.slot).Nodup :=
  inv.distinct.sublist (List.filter_sublist.map _)

theorem main_ext {inv : Inventory} {slot slot' : InventorySlot} (h : slot ∈ inv.main)
    (h' : slot' ∈ inv.main) (heq : slot.slot = slot'.slot) : slot = slot' :=
  List.inj_on_of_nodup_map (nodup_main inv) h h' heq

theorem nodup_stock (inv : Inventory) : ((stock inv.main).map Prod.fst).Nodup := by
  rw [stock, List.map_map]
  exact (nodup_main inv).sublist (List.filter_sublist.map _)

theorem held_of_mem {inv : Inventory} {slot : InventorySlot} (h : slot ∈ inv.main)
    (hempty : slot.empty = false) : held inv slot.slot = slot.count := by
  have hmem : (slot.slot, slot.count) ∈ stock inv.main :=
    List.mem_map_of_mem (List.mem_filter.mpr ⟨h, by rw [hempty]; rfl⟩)
  rw [held, left, (Dict.mem_iff_get? (nodup_stock inv)).mp hmem, Option.getD_some]

theorem requirements_perm (variant : CraftRecipeVariant) (crafts : Nat) :
    (requirements variant crafts).Perm (required variant crafts) :=
  List.perm_insertionSort _ _

theorem length_required (variant : CraftRecipeVariant) (crafts : Nat) :
    (required variant crafts).length = crafts * variant.groups.length := by
  rw [required, List.length_flatMap, Nat.mul_comm]
  simp

/-! ## The loop of the allocation -/

theorem mem_chosen? {slots : List InventorySlot} {remaining : Int → Nat} {group : Group}
    {slot : InventorySlot} (h : chosen? slots remaining group = some slot) :
    slot ∈ slots ∧ slot.empty = false ∧ 0 < remaining slot.slot ∧ fits slot.item group = true := by
  have hmem := (List.mem_insertionSort _).mp (List.mem_of_mem_head? h)
  obtain ⟨hslot, hfits⟩ := List.mem_filter.mp hmem
  simp only [Bool.and_eq_true, Bool.not_eq_true', decide_eq_true_eq] at hfits
  exact ⟨hslot, hfits.1.1, hfits.1.2, hfits.2⟩

/-- The choice of the code. -/
def largestStack (inv : Inventory) : Choice (Gives inv) where
  choose remaining group := (chosen? inv.main remaining group).map InventorySlot.slot
  sound := by
    intro capacity group i h
    obtain ⟨slot, hslot, rfl⟩ := Option.map_eq_some_iff.mp h
    obtain ⟨hmem, hempty, hpos, hfits⟩ := mem_chosen? hslot
    exact ⟨⟨slot, hmem, rfl, hempty, hfits⟩, hpos⟩
  complete := by
    rintro capacity group h i ⟨slot, hmem, rfl, hempty, hfits⟩
    by_contra hpos
    have hnil := List.head?_eq_none_iff.mp (Option.map_eq_none_iff.mp h)
    have hslot : slot ∈ (inv.main.filter fun slot =>
        !slot.empty && 0 < capacity slot.slot && fits slot.item group).insertionSort
          (Before capacity) := by
      rw [List.mem_insertionSort, List.mem_filter]
      simp [hmem, hempty, hfits, Nat.pos_of_ne_zero hpos]
    rw [hnil] at hslot
    cases hslot

/-- The allocation so far counts the picks so far. -/
structure Tallied (inv : Inventory) (s : Allocation) (picks : List Int) : Prop where
  nodup : (s.allocated.map Prod.fst).Nodup
  counts : ∀ i, left s.allocated i = picks.count i
  sum : (s.allocated.map Prod.snd).sum = picks.length
  picked : ∀ e ∈ s.allocated, e.1 ∈ picks
  items : ∀ i ∈ picks, ∃ slot ∈ inv.main, slot.slot = i ∧ slot.empty = false ∧
    s.chosenItems.get? i = some (slot.item.map normalizeRecipeItem)

section

variable {κ : Type} [DecidableEq κ]

theorem sum_set {d : Dict κ Nat} (k : κ) (n : Nat) :
    ((d.set k n).map Prod.snd).sum + left d k = (d.map Prod.snd).sum + n := by
  induction d with
  | nil => simp [Dict.set, left]
  | cons e d ih =>
      obtain ⟨l, m⟩ := e
      by_cases h : l = k
      · simp only [Dict.set, left, Dict.get?_cons, h, if_true, List.map_cons, List.sum_cons,
          Option.getD_some]
        omega
      · simp only [Dict.set, left, Dict.get?_cons, h, if_false, List.map_cons, List.sum_cons] at ih ⊢
        omega

theorem left_set (d : Dict κ Nat) (k : κ) (n : Nat) :
    left (d.set k n) = Function.update (left d) k n := by
  funext i
  rw [left, Dict.get?_set, Function.update_apply]
  split <;> rfl

end

theorem Tallied.step {inv : Inventory} {s s' : Allocation} {picks : List Int} {group : Group}
    (hs : Tallied inv s picks) (h : s.step inv.main group = some s') :
    ∃ i, (largestStack inv).choose (left s.remaining) group = some i ∧
      left s'.remaining = take (left s.remaining) i ∧ Tallied inv s' (picks ++ [i]) := by
  obtain ⟨slot, hslot, rfl⟩ := Option.map_eq_some_iff.mp h
  have hchoose : (largestStack inv).choose (left s.remaining) group = some slot.slot :=
    congrArg (Option.map InventorySlot.slot) hslot
  refine ⟨slot.slot, hchoose, left_set .., Dict.nodup_set hs.nodup .., fun i => ?_, ?_, ?_, ?_⟩
  · rw [left_set, Function.update_apply, List.count_append, ← hs.counts]
    split
    · next heq => rw [heq, List.count_singleton_self]
    · next hne =>
        rw [List.count_singleton, if_neg (by simpa using Ne.symm hne), Nat.add_zero]
  · have hsum := sum_set (d := s.allocated) slot.slot (left s.allocated slot.slot + 1)
    rw [hs.sum] at hsum
    rw [List.length_append, List.length_singleton]
    show ((s.allocated.set slot.slot _).map Prod.snd).sum = _
    omega
  · intro e he
    rcases Dict.mem_of_mem_set he with rfl | he
    · exact List.mem_append_right _ List.mem_cons_self
    · exact List.mem_append_left _ (hs.picked e he)
  · intro i hi
    rw [Dict.get?_set]
    by_cases heq : i = slot.slot
    · obtain ⟨hmem, hempty, -, -⟩ := mem_chosen? hslot
      exact ⟨slot, hmem, heq.symm, hempty, by rw [if_pos heq]⟩
    · rw [if_neg heq]
      refine hs.items i ((List.mem_append.mp hi).resolve_right fun hi => ?_)
      exact heq (List.mem_singleton.mp hi)

/-- The loop is the greedy way, and counts what it picks. -/
theorem loop_eq {inv : Inventory} {s : Allocation} {picks : List Int} (hs : Tallied inv s picks)
    (groups : List Group) :
    (groups.foldlM (Allocation.step inv.main) s = none ∧
        greedy (largestStack inv) (left s.remaining) groups = none) ∨
      ∃ s' more, groups.foldlM (Allocation.step inv.main) s = some s' ∧
        greedy (largestStack inv) (left s.remaining) groups = some more ∧
        Tallied inv s' (picks ++ more) := by
  induction groups generalizing s picks with
  | nil => exact .inr ⟨s, [], rfl, rfl, by rwa [List.append_nil]⟩
  | cons group groups ih =>
      rw [List.foldlM_cons]
      cases hstep : s.step inv.main group with
      | none =>
          have hnone : (largestStack inv).choose (left s.remaining) group = none := by
            rw [largestStack, Option.map_eq_none_iff]
            exact Option.map_eq_none_iff.mp hstep
          refine .inl ⟨rfl, ?_⟩
          rw [greedy, hnone, Option.bind_none]
      | some s₁ =>
          obtain ⟨i, hchoose, hleft, hs₁⟩ := hs.step hstep
          rw [greedy, hchoose, Option.bind_some, ← hleft]
          rcases ih hs₁ with ⟨hnone, hgreedy⟩ | ⟨s', more, hsome, hgreedy, hs'⟩
          · exact .inl ⟨hnone, by rw [hgreedy]; rfl⟩
          · rw [List.append_assoc, List.singleton_append] at hs'
            exact .inr ⟨s', i :: more, hsome, by rw [hgreedy]; rfl, hs'⟩

theorem mem_inputs {s : Allocation} {entry : CraftInput} (h : entry ∈ s.inputs) :
    ∃ e ∈ s.allocated, entry = ⟨e.1, (s.chosenItems.get? e.1).getD none, e.2⟩ := by
  obtain ⟨e, he, rfl⟩ := List.mem_map.mp h
  exact ⟨e, (List.mem_insertionSort _).mp he, rfl⟩

theorem perm_inputs (s : Allocation) :
    (s.inputs.map CraftInput.slot).Perm (s.allocated.map Prod.fst) ∧
      (s.inputs.map CraftInput.count).Perm (s.allocated.map Prod.snd) := by
  simp only [Allocation.inputs, List.map_map]
  exact ⟨(List.perm_insertionSort _ _).map _, (List.perm_insertionSort _ _).map _⟩

/-- What is counted is an allocation. -/
theorem Tallied.isAllocation {inv : Inventory} {s : Allocation} {picks : List Int}
    {variant : CraftRecipeVariant} {crafts : Nat} (hs : Tallied inv s picks)
    (hserves : Serves (Gives inv) (held inv) (requirements variant crafts) picks) :
    IsAllocation inv variant crafts s.inputs := by
  obtain ⟨hslots, hcounts⟩ := perm_inputs s
  have hcount : ∀ entry ∈ s.inputs, entry.count = picks.count entry.slot := by
    intro entry hentry
    obtain ⟨e, he, rfl⟩ := mem_inputs hentry
    have hget := (Dict.mem_iff_get? hs.nodup).mp he
    show e.2 = picks.count e.1
    rw [← hs.counts, left, hget, Option.getD_some]
  refine ⟨?_, fun entry hentry => ?_, ?_⟩
  · obtain ⟨picks', hperm, hserves'⟩ := hserves.perm (requirements_perm variant crafts)
    refine ⟨picks', hserves', hslots.nodup_iff.mpr hs.nodup, fun i hi => ?_, fun entry hentry => ?_⟩
    · rw [hslots.mem_iff]
      by_contra hnone
      have hzero := hs.counts i
      rw [left, Dict.get?_eq_none hnone, Option.getD_none] at hzero
      exact List.count_eq_zero.mp hzero.symm (hperm.mem_iff.mp hi)
    · rw [hcount entry hentry, hperm.count_eq]
  · have hwithin := hserves.within entry.slot
    rw [← hcount entry hentry] at hwithin
    obtain ⟨e, he, rfl⟩ := mem_inputs hentry
    obtain ⟨slot, hmem, hslot, hempty, hitem⟩ := hs.items e.1 (hs.picked e he)
    refine ⟨slot, hmem, hslot, by rw [hitem, Option.getD_some], hwithin.trans ?_⟩
    show held inv e.1 ≤ slot.count
    rw [← hslot]
    exact (held_of_mem hmem hempty).le
  · rw [hcounts.sum_eq, hs.sum, ← hserves.length_eq, (requirements_perm variant crafts).length_eq,
      length_required]

theorem covered_inputs {inv : Inventory} {variant : CraftRecipeVariant} {crafts : Nat}
    {inputs : List CraftInput} (h : IsAllocation inv variant crafts inputs) :
    covered inv.main inputs = true := by
  refine List.all_eq_true.mpr fun entry hentry => ?_
  obtain ⟨slot, hmem, hslot, -, hcount⟩ := h.within entry hentry
  have hkeys : ((inv.main.map fun slot => (slot.slot, slot)).map Prod.fst).Nodup := by
    rw [List.map_map]
    exact nodup_main inv
  have hget := (Dict.mem_iff_get? hkeys).mp (List.mem_map_of_mem hmem)
  rw [← hslot, hget]
  exact decide_eq_true hcount

/-- The loop starts with nothing taken. -/
theorem tallied_start (inv : Inventory) : Tallied inv ⟨stock inv.main, [], []⟩ [] :=
  ⟨List.nodup_nil, fun _ => rfl, rfl, fun _ h => absurd h List.not_mem_nil,
    fun _ h => absurd h List.not_mem_nil⟩

/-- **What `_allocate_recipe_inputs` returns**: an allocation if the greedy way
finds one. -/
theorem allocateRecipeInputs_spec (inv : Inventory) (variant : CraftRecipeVariant) (crafts : Nat) :
    (greedy (largestStack inv) (held inv) (requirements variant crafts) = none ∧
        allocateRecipeInputs inv variant crafts = none) ∨
      ∃ picks inputs items,
        greedy (largestStack inv) (held inv) (requirements variant crafts) = some picks ∧
        allocateRecipeInputs inv variant crafts = some (inputs, items) ∧
        IsAllocation inv variant crafts inputs := by
  rcases loop_eq (tallied_start inv) (requirements variant crafts) with
    ⟨hloop, hgreedy⟩ | ⟨s, picks, hloop, hgreedy, hs⟩
  · refine .inl ⟨hgreedy, ?_⟩
    simp only [allocateRecipeInputs, hloop, Option.bind_none]
  · rw [List.nil_append] at hs
    have hallocation := hs.isAllocation (greedy_serves hgreedy)
    refine .inr ⟨picks, s.inputs, s.chosenItems, hgreedy, ?_, hallocation⟩
    simp only [allocateRecipeInputs, hloop, Option.bind_some, covered_inputs hallocation, if_true]

/-- Inputs come from a loop that went through. -/
theorem tallied_of_allocateRecipeInputs {inv : Inventory} {variant : CraftRecipeVariant}
    {crafts : Nat} {inputs : List CraftInput} {items : Dict Int (Option ItemName)}
    (h : allocateRecipeInputs inv variant crafts = some (inputs, items)) :
    ∃ s picks, Tallied inv s picks ∧
      Serves (Gives inv) (held inv) (requirements variant crafts) picks ∧
      inputs = s.inputs ∧ items = s.chosenItems := by
  rcases loop_eq (tallied_start inv) (requirements variant crafts) with
    ⟨hloop, -⟩ | ⟨s, picks, hloop, hgreedy, hs⟩
  · simp only [allocateRecipeInputs, hloop, Option.bind_none] at h
    cases h
  · rw [List.nil_append] at hs
    simp only [allocateRecipeInputs, hloop, Option.bind_some] at h
    split at h
    · obtain ⟨rfl, rfl⟩ := Prod.mk.inj (Option.some.inj h)
      exact ⟨s, picks, hs, greedy_serves hgreedy, rfl, rfl⟩
    · cases h

end Craft

end MineBot
