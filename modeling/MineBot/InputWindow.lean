import Mathlib
import MineBot.Json

/-!
# The model input window

`bounded_model_input_items` keeps a suffix of the conversation: it walks
the items from the last one back and takes each with its group, the
function calls and outputs of its call id, until a group would exceed the
window. The latest user item is in from the start, wherever it lies, and
the first group taken may exceed.

`Window` is what the indices selected so far look like after the walk has
come down to `index`; the result is the window where the walk stops.
-/

namespace MineBot

namespace InputWindow

/-! ## Items -/

/-- An item of a model input. -/
abbrev Item := JsonObject

/-- `str(value)` and `json.dumps(item, …)`, the text of an object, which is not empty. -/
structure PyText where
  str : Json → String
  dumps : Item → { text : String // text ≠ "" }

/-- `item.get(name) or …` -/
def truthyField (item : Item) (name : String) : Option Json :=
  (item.get? name).filter Json.truthy

/-- `_session_item_role(item) == "user"` -/
def isUser (item : Item) : Bool := item.get? "role" = some (.str "user")

section Window

variable (py : PyText)

/-- `_session_item_type`. -/
def sessionItemType (item : Item) : String := ((truthyField item "type").map py.str).getD ""

/-- `_session_item_call_id`. -/
def sessionItemCallId (item : Item) : String :=
  (((truthyField item "call_id").or (truthyField item "id")).map py.str).getD ""

/-- `_model_item_chars`. -/
def modelItemChars (item : Item) : Nat := (py.dumps item).1.length

/-- `model_input_chars`. -/
def modelInputChars (items : List Item) : Nat := (items.map (modelItemChars py)).sum

/-- The call id of a function call or of its output. -/
def pairId (item : Item) : Option String :=
  if sessionItemType py item ∈ ["function_call", "function_call_output"]
      ∧ sessionItemCallId py item ≠ "" then some (sessionItemCallId py item)
  else none

/-! ## The window -/

variable (items : List Item)

/-- The last index with the property. -/
def lastIndex (p : Nat → Bool) : Option Nat := (List.range items.length).reverse.find? p

/-- `latest_user`. -/
def latestUser : Option Nat := lastIndex items fun index => (items[index]?).any isUser

/-- `pair_indices.get(call_id, ())` -/
def pairIndices (callId : String) : Finset Nat :=
  (Finset.range items.length).filter fun index => (items[index]?).bind (pairId py) = some callId

/-- The `group` of an item, with what is selected of it. -/
def groupOf (index : Nat) : Finset Nat :=
  match (items[index]?).bind (pairId py) with
  | some callId => insert index (pairIndices py items callId)
  | none => {index}

/-- The characters of the items at some indices. -/
def charsAt (indices : Finset Nat) : Nat :=
  ∑ index ∈ indices, ((items[index]?).map (modelItemChars py)).getD 0

/-- The loop, with `index` items still before it. -/
def retain (maxItems maxChars : Int) : Nat → Finset Nat → Nat → Bool → Finset Nat
  | 0, selected, _, _ => selected
  | index + 1, selected, selectedChars, retainedSuffixItem =>
      if index ∈ selected then
        retain maxItems maxChars index selected selectedChars retainedSuffixItem
      else
        let group := groupOf py items index \ selected
        let groupChars := charsAt py items group
        if (maxItems < selected.card + group.card ∨ maxChars < selectedChars + groupChars)
            ∧ retainedSuffixItem then selected
        else
          retain maxItems maxChars index (selected ∪ group) (selectedChars + groupChars) true

/-- The indices of the items that are kept. -/
def selectedIndices (maxItems maxChars : Int) : Finset Nat :=
  let maxItems := max 1 maxItems
  let maxChars := max 1 maxChars
  if items.length ≤ maxItems ∧ modelInputChars py items ≤ maxChars then
    Finset.range items.length
  else
    let selected := (latestUser items).elim ∅ singleton
    retain py items maxItems maxChars items.length selected (charsAt py items selected) false

/-- `bounded_model_input_items`. -/
def boundedModelInputItems (maxItems maxChars : Int) : List Item :=
  (items.zipIdx.filter fun item => item.2 ∈ selectedIndices py items maxItems maxChars).map
    Prod.fst

/-! ## What a window is -/

/-- The latest user item, if there is one. -/
def userSet : Finset Nat := (latestUser items).elim ∅ singleton

/-- The latest user item and the group of the last other item. -/
def base : Finset Nat :=
  userSet items ∪
    (lastIndex items fun index => latestUser items ≠ some index).elim ∅ (groupOf py items)

/-- Two items share a call id. -/
def SameCall (i j : Nat) : Prop :=
  ∃ callId, (items[i]?).bind (pairId py) = some callId ∧
    (items[j]?).bind (pairId py) = some callId

/-- What the walk has selected when `index` items are still before it. -/
structure Window (maxItems maxChars : Int) (index : Nat) (selected : Finset Nat) (retained : Bool) :
    Prop where
  bound : index ≤ items.length
  inside : selected ⊆ Finset.range items.length
  user : userSet items ⊆ selected
  visited : ∀ j, index ≤ j → j < items.length → j ∈ selected
  closed : ∀ i ∈ selected, latestUser items = some i ∨ groupOf py items i ⊆ selected
  reached : ∀ i ∈ selected, i < index → latestUser items = some i ∨
    ∃ k, index ≤ k ∧ k < items.length ∧ SameCall py items i k
  fresh : retained = false → selected = userSet items
  started : retained = true → base py items ⊆ selected
  fits : retained = true → selected = base py items ∨
    (selected.card : Int) ≤ maxItems ∧ (charsAt py items selected : Int) ≤ maxChars

variable {py items} {maxItems maxChars : Int} {index : Nat} {selected : Finset Nat}
variable {retained : Bool}

theorem lastIndex_eq_some {p : Nat → Bool} {i : Nat} (h : lastIndex items p = some i) :
    i < items.length ∧ p i = true :=
  ⟨List.mem_range.mp (List.mem_reverse.mp (List.mem_of_find?_eq_some h)), List.find?_some h⟩

/-- An index with the property and none after it is the last one. -/
theorem lastIndex_of_greatest {p : Nat → Bool} {i : Nat} (hi : i < items.length) (hp : p i = true)
    (hafter : ∀ j, i < j → j < items.length → p j = false) : lastIndex items p = some i := by
  unfold lastIndex
  generalize items.length = n at hi hafter
  induction n with
  | zero => cases hi
  | succ n ih =>
      rw [List.range_succ, List.reverse_append, List.reverse_singleton, List.singleton_append]
      by_cases hn : i = n
      · subst hn
        rw [List.find?_cons_of_pos hp]
      · have hlt : i < n := by omega
        rw [List.find?_cons_of_neg (by rw [hafter n hlt n.lt_succ_self]; exact Bool.false_ne_true)]
        exact ih hlt fun j hij hj => hafter j hij (by omega)

theorem mem_userSet {i : Nat} : i ∈ userSet items ↔ latestUser items = some i := by
  unfold userSet
  cases latestUser items with
  | none => simp
  | some u => simp [eq_comm]

theorem mem_groupOf {i k : Nat} (h : k ∈ groupOf py items i) :
    k = i ∨ k < items.length ∧ SameCall py items k i := by
  unfold groupOf at h
  split at h
  · next callId hcall =>
      rw [Finset.mem_insert, pairIndices, Finset.mem_filter, Finset.mem_range] at h
      exact h.imp id fun ⟨hk, hkcall⟩ => ⟨hk, callId, hkcall, hcall⟩
  · exact .inl (Finset.mem_singleton.mp h)

theorem self_mem_groupOf (i : Nat) : i ∈ groupOf py items i := by
  unfold groupOf
  split
  · exact Finset.mem_insert_self ..
  · exact Finset.mem_singleton_self _

theorem groupOf_subset {i : Nat} (hi : i < items.length) :
    groupOf py items i ⊆ Finset.range items.length := by
  intro k hk
  rcases mem_groupOf hk with rfl | ⟨hk, -⟩
  · exact Finset.mem_range.mpr hi
  · exact Finset.mem_range.mpr hk

/-- The members of a group have the same group. -/
theorem groupOf_congr {i k : Nat} (h : k ∈ groupOf py items i) :
    groupOf py items k ⊆ groupOf py items i := by
  rcases mem_groupOf h with rfl | ⟨-, callId, hk, hi⟩
  · exact subset_rfl
  · unfold groupOf
    rw [hk, hi]
    refine Finset.insert_subset ?_ (Finset.subset_insert ..)
    rw [groupOf, hi] at h
    exact h

/-! ## The walk -/

/-- Coming by an item that is selected changes nothing. -/
theorem Window.skip (h : Window py items maxItems maxChars (index + 1) selected retained)
    (hmem : index ∈ selected) : Window py items maxItems maxChars index selected retained := by
  refine ⟨by have := h.bound; omega, h.inside, h.user, fun j hj hlen => ?_, h.closed,
    fun i hi hlt => ?_, h.fresh, h.started, h.fits⟩
  · by_cases hindex : j = index
    · exact hindex ▸ hmem
    · exact h.visited j (by omega) hlen
  · obtain hlatest | ⟨k, hk, hlen, hsame⟩ := h.reached i hi (by omega)
    · exact .inl hlatest
    · exact .inr ⟨k, by omega, hlen, hsame⟩

/-- The first group taken is that of the last item that is not the latest
user item. -/
theorem Window.base_eq (h : Window py items maxItems maxChars (index + 1) selected false)
    (hmem : index ∉ selected) : base py items = selected ∪ groupOf py items index := by
  have hselected := h.fresh rfl
  have hlast : lastIndex items (fun i => latestUser items ≠ some i) = some index := by
    refine lastIndex_of_greatest h.bound ?_ fun j hj hlen => ?_
    · rw [decide_eq_true_eq]
      exact fun hlatest => hmem (hselected ▸ mem_userSet.mpr hlatest)
    · have hj' : j ∈ userSet items := hselected ▸ h.visited j hj hlen
      rw [decide_eq_false_iff_not, not_not]
      exact mem_userSet.mp hj'
  rw [base, hlast, Option.elim_some, hselected]

/-- Taking the group of the next item. -/
theorem Window.take (h : Window py items maxItems maxChars (index + 1) selected retained)
    (hmem : index ∉ selected)
    (hfits : retained = true → ((selected ∪ groupOf py items index).card : Int) ≤ maxItems ∧
      (charsAt py items (selected ∪ groupOf py items index) : Int) ≤ maxChars) :
    Window py items maxItems maxChars index (selected ∪ groupOf py items index) true := by
  have hlen : index < items.length := h.bound
  refine ⟨hlen.le, Finset.union_subset h.inside (groupOf_subset hlen),
    h.user.trans Finset.subset_union_left, fun j hj hjlen => ?_, fun i hi => ?_, fun i hi hlt => ?_,
    nofun, fun _ => ?_, fun _ => ?_⟩
  · by_cases hindex : j = index
    · rw [hindex]
      exact Finset.mem_union_right _ (self_mem_groupOf index)
    · exact Finset.mem_union_left _ (h.visited j (by omega) hjlen)
  · rcases Finset.mem_union.mp hi with hold | hnew
    · exact (h.closed i hold).imp id fun hsub => hsub.trans Finset.subset_union_left
    · exact .inr ((groupOf_congr hnew).trans Finset.subset_union_right)
  · rcases Finset.mem_union.mp hi with hold | hnew
    · obtain hlatest | ⟨k, hk, hklen, hsame⟩ := h.reached i hold (by omega)
      · exact .inl hlatest
      · exact .inr ⟨k, by omega, hklen, hsame⟩
    · rcases mem_groupOf hnew with rfl | ⟨-, hsame⟩
      · exact absurd hlt (lt_irrefl i)
      · exact .inr ⟨index, le_rfl, hlen, hsame⟩
  · cases retained with
    | true => exact (h.started rfl).trans Finset.subset_union_left
    | false => rw [h.base_eq hmem]
  · cases retained with
    | true => exact .inr (hfits rfl)
    | false => exact .inl (h.base_eq hmem).symm

variable (py items) in
theorem charsAt_union (selected group : Finset Nat) :
    charsAt py items (selected ∪ group \ selected) =
      charsAt py items selected + charsAt py items (group \ selected) :=
  Finset.sum_union Finset.disjoint_sdiff

/-- The walk ends in a window: at the first item, or before a group that
would exceed. -/
theorem retain_window (h : Window py items maxItems maxChars index selected retained) :
    ∃ stop retained', Window py items maxItems maxChars stop (retain py items maxItems maxChars
      index selected (charsAt py items selected) retained) retained' ∧
      (retained' = true ∨ stop = 0) := by
  induction index generalizing selected retained with
  | zero => exact ⟨0, retained, h, .inr rfl⟩
  | succ index ih =>
      unfold retain
      by_cases hmem : index ∈ selected
      · rw [if_pos hmem]
        exact ih (h.skip hmem)
      · rw [if_neg hmem]
        dsimp only
        split
        · next hstop => exact ⟨index + 1, retained, h, .inl hstop.2⟩
        · next hgo =>
            rw [← charsAt_union]
            refine ih ?_
            have hunion : selected ∪ groupOf py items index \ selected
                = selected ∪ groupOf py items index := Finset.union_sdiff_self_eq_union
            have hcard := Finset.card_union_of_disjoint
              (Finset.disjoint_sdiff (s := selected) (t := groupOf py items index))
            have hchars := charsAt_union py items selected
              (groupOf py items index)
            rw [hunion] at hcard hchars ⊢
            refine h.take hmem fun hretained => ?_
            have hfits : ¬ (maxItems < (selected.card + (groupOf py items index \ selected).card : Int)
                ∨ maxChars < (charsAt py items selected : Int)
                  + charsAt py items (groupOf py items index \ selected)) :=
              fun hexceeds => hgo ⟨hexceeds, hretained⟩
            rw [hcard, hchars]
            push_cast
            omega

/-! ## The result -/

variable (items) in
/-- What the items kept weigh, as a sum over their indices. -/
theorem sum_filter_zipIdx (weight : Item → Nat) (indices : Finset Nat)
    (hinside : indices ⊆ Finset.range items.length) :
    (((items.zipIdx.filter fun item => item.2 ∈ indices).map Prod.fst).map weight).sum =
      ∑ index ∈ indices, ((items[index]?).map weight).getD 0 := by
  have hrange : ∀ items : List Item,
      (((items.zipIdx.filter fun item => item.2 ∈ indices).map Prod.fst).map weight).sum =
        ∑ index ∈ Finset.range items.length,
          if index ∈ indices then ((items[index]?).map weight).getD 0 else 0 := by
    intro items
    induction items using List.reverseRecOn with
    | nil => rfl
    | append_singleton items item ih =>
        rw [List.zipIdx_append, List.filter_append, List.map_append, List.map_append,
          List.sum_append, ih, List.length_append, List.length_singleton, Finset.sum_range_succ]
        congr 1
        · refine Finset.sum_congr rfl fun index hindex => ?_
          rw [List.getElem?_append_left (Finset.mem_range.mp hindex)]
        · by_cases hmem : items.length ∈ indices <;> simp [List.zipIdx_cons, hmem]
  rw [hrange, ← Finset.sum_filter, Finset.filter_mem_eq_inter, Finset.inter_eq_right.mpr hinside]

variable (py items maxItems maxChars) in
/-- The items kept are a coherent bounded suffix. -/
structure Coherent (selected : Finset Nat) : Prop where
  user : ∀ index, latestUser items = some index → index ∈ selected
  /-- all or none of a call id, but for the latest user item -/
  pairs : ∀ callId, pairIndices py items callId ⊆ selected ∨
    ∀ index ∈ pairIndices py items callId, index ∈ selected → latestUser items = some index
  bounded : ((boundedModelInputItems py items maxItems maxChars).length : Int) ≤ maxItems ∧
      (modelInputChars py (boundedModelInputItems py items maxItems maxChars) : Int) ≤ maxChars ∨
    selected = base py items
  /-- an item is skipped for the latest user item and for the groups of later items only -/
  suffix : ∀ skipped, skipped < items.length → skipped ∉ selected → ∀ index ∈ selected,
    index < skipped → latestUser items = some index ∨
      ∃ later, skipped < later ∧ later < items.length ∧ SameCall py items index later

theorem base_nonempty (h : items ≠ []) : (base py items).Nonempty := by
  cases hlatest : latestUser items with
  | some u =>
      exact ⟨u, Finset.mem_union_left _ (mem_userSet.mpr hlatest)⟩
  | none =>
      have hlength : 0 < items.length := List.length_pos_of_ne_nil h
      have hlast : lastIndex items (fun i => latestUser items ≠ some i)
          = some (items.length - 1) :=
        lastIndex_of_greatest (by omega) (by rw [hlatest]; rfl) fun j hj hlen => by omega
      refine ⟨items.length - 1, Finset.mem_union_right _ ?_⟩
      rw [hlast, Option.elim_some]
      exact self_mem_groupOf _

variable (py) in
theorem charsAt_ge_card (hinside : selected ⊆ Finset.range items.length) :
    selected.card ≤ charsAt py items selected := by
  rw [Finset.card_eq_sum_ones, charsAt]
  refine Finset.sum_le_sum fun index hindex => ?_
  have hlen := Finset.mem_range.mp (hinside hindex)
  rw [List.getElem?_eq_getElem hlen, Option.map_some, Option.getD_some, modelItemChars]
  have hne := (py.dumps items[index]).2
  exact Nat.one_le_iff_ne_zero.mpr fun hzero => hne (String.length_eq_zero_iff.mp hzero)

/-- Limits below 1 count as 1: one item then, which is the base. -/
theorem fits_or_base (hinside : selected ⊆ Finset.range items.length)
    (hbase : base py items ⊆ selected) (hcard : (selected.card : Int) ≤ max 1 maxItems)
    (hchars : (charsAt py items selected : Int) ≤ max 1 maxChars) :
    ((selected.card : Int) ≤ maxItems ∧ (charsAt py items selected : Int) ≤ maxChars) ∨
      selected = base py items := by
  by_cases hlimits : 1 ≤ maxItems ∧ 1 ≤ maxChars
  · exact .inl ⟨by omega, by omega⟩
  · right
    have hone : selected.card ≤ 1 := by
      have hchars' := charsAt_ge_card py hinside
      omega
    by_cases hnil : items = []
    · subst hnil
      have hempty : selected = ∅ := Finset.subset_empty.mp hinside
      rw [hempty] at hbase ⊢
      exact (Finset.subset_empty.mp hbase).symm
    · exact (Finset.eq_of_subset_of_card_le hbase
        (hone.trans (Finset.one_le_card.mpr (base_nonempty hnil)))).symm

theorem userSet_subset : userSet items ⊆ Finset.range items.length :=
  fun _ hi => Finset.mem_range.mpr (lastIndex_eq_some (mem_userSet.mp hi)).1

/-- The window before the walk. -/
theorem Window.start :
    Window py items maxItems maxChars items.length (userSet items) false where
  bound := le_rfl
  inside := userSet_subset
  user := subset_rfl
  visited := fun j hj hlen => absurd hlen (by omega)
  closed := fun i hi => .inl (mem_userSet.mp hi)
  reached := fun i hi _ => .inl (mem_userSet.mp hi)
  fresh := fun _ => rfl
  started := nofun
  fits := nofun

theorem base_subset : base py items ⊆ Finset.range items.length := by
  refine Finset.union_subset userSet_subset ?_
  cases hlast : lastIndex items fun index => latestUser items ≠ some index with
  | none => exact Finset.empty_subset _
  | some index => exact groupOf_subset (lastIndex_eq_some hlast).1

/-- All the items, when they fit, are a window too. -/
theorem Window.all (hitems : (items.length : Int) ≤ maxItems)
    (hchars : (charsAt py items (Finset.range items.length) : Int) ≤ maxChars) :
    Window py items maxItems maxChars 0 (Finset.range items.length) true where
  bound := Nat.zero_le _
  inside := subset_rfl
  user := userSet_subset
  visited := fun j _ hlen => Finset.mem_range.mpr hlen
  closed := fun i hi => .inr (groupOf_subset (Finset.mem_range.mp hi))
  reached := fun i _ hlt => absurd hlt (Nat.not_lt_zero i)
  fresh := nofun
  started := fun _ => base_subset
  fits := fun _ => .inr ⟨by rwa [Finset.card_range], hchars⟩

theorem charsAt_range : charsAt py items (Finset.range items.length) = modelInputChars py items := by
  have hall := sum_filter_zipIdx items (modelItemChars py) _ subset_rfl
  rw [charsAt, ← hall, modelInputChars, List.filter_eq_self.mpr, List.zipIdx_map_fst]
  intro item hitem
  exact decide_eq_true (Finset.mem_range.mpr (List.mem_zipIdx' hitem).1)

variable (py items maxItems maxChars) in
/-- The indices selected are a window. -/
theorem selected_window : ∃ stop retained, Window py items (max 1 maxItems) (max 1 maxChars) stop
    (selectedIndices py items maxItems maxChars) retained ∧ (retained = true ∨ stop = 0) := by
  unfold selectedIndices
  dsimp only
  split
  · next hfits =>
      exact ⟨0, true, .all hfits.1 (by rw [charsAt_range]; exact hfits.2), .inl rfl⟩
  · exact retain_window Window.start

/-- A window at the end of the walk holds the base. -/
theorem Window.base_subset {stop : Nat} (h : Window py items maxItems maxChars stop selected retained)
    (hend : retained = true ∨ stop = 0) : base py items ⊆ selected := by
  rcases hend with hretained | rfl
  · exact h.started hretained
  · intro i hi
    exact h.visited i (Nat.zero_le i) (Finset.mem_range.mp (InputWindow.base_subset hi))

/-- A walk that takes nothing has only the latest user item before it. -/
theorem Window.fits_or {stop : Nat} (h : Window py items maxItems maxChars stop selected retained)
    (hend : retained = true ∨ stop = 0) : selected = base py items ∨
      (selected.card : Int) ≤ maxItems ∧ (charsAt py items selected : Int) ≤ maxChars := by
  cases retained with
  | true => exact h.fits rfl
  | false =>
      left
      refine subset_antisymm ?_ (h.base_subset hend)
      rw [h.fresh rfl]
      exact Finset.subset_union_left

theorem mem_pairIndices {callId : String} {i : Nat} :
    i ∈ pairIndices py items callId ↔
      i < items.length ∧ (items[i]?).bind (pairId py) = some callId := by
  rw [pairIndices, Finset.mem_filter, Finset.mem_range]

theorem Window.pairs {stop : Nat} (h : Window py items maxItems maxChars stop selected retained)
    (callId : String) : pairIndices py items callId ⊆ selected ∨
      ∀ index ∈ pairIndices py items callId, index ∈ selected → latestUser items = some index := by
  by_cases hother : ∃ index ∈ pairIndices py items callId, index ∈ selected ∧
      latestUser items ≠ some index
  · obtain ⟨index, hpair, hmem, hlatest⟩ := hother
    left
    have hgroup := (h.closed index hmem).resolve_left hlatest
    rw [groupOf, (mem_pairIndices.mp hpair).2] at hgroup
    exact (Finset.subset_insert ..).trans hgroup
  · right
    intro index hpair hmem
    by_contra hlatest
    exact hother ⟨index, hpair, hmem, hlatest⟩

theorem boundedModelInputItems_length :
    (boundedModelInputItems py items maxItems maxChars).length =
      (selectedIndices py items maxItems maxChars).card := by
  obtain ⟨stop, retained, hwindow, -⟩ := selected_window py items maxItems maxChars
  have hsum := sum_filter_zipIdx items (fun _ => 1) _ hwindow.inside
  rw [List.map_const', List.sum_replicate_nat, mul_one] at hsum
  rw [boundedModelInputItems, hsum, Finset.card_eq_sum_ones]
  refine Finset.sum_congr rfl fun index hindex => ?_
  rw [List.getElem?_eq_getElem (Finset.mem_range.mp (hwindow.inside hindex)), Option.map_some,
    Option.getD_some]

theorem modelInputChars_bounded :
    modelInputChars py (boundedModelInputItems py items maxItems maxChars) =
      charsAt py items (selectedIndices py items maxItems maxChars) := by
  obtain ⟨stop, retained, hwindow, -⟩ := selected_window py items maxItems maxChars
  exact sum_filter_zipIdx items (modelItemChars py) _ hwindow.inside

theorem boundedModelInputItems_sublist :
    (boundedModelInputItems py items maxItems maxChars).Sublist items := by
  have hsub := (List.filter_sublist (l := items.zipIdx)
    (p := fun item => item.2 ∈ selectedIndices py items maxItems maxChars)).map Prod.fst
  rwa [List.zipIdx_map_fst] at hsub

/-- For every item list and limits the items kept are a subsequence that is
a coherent bounded suffix. -/
theorem boundedModelInputItems_coherent (py : PyText) (items : List Item)
    (maxItems maxChars : Int) :
    (boundedModelInputItems py items maxItems maxChars).Sublist items ∧
    ∃ selected ⊆ Finset.range items.length,
      boundedModelInputItems py items maxItems maxChars =
        (items.zipIdx.filter fun item => item.2 ∈ selected).map Prod.fst ∧
      Coherent py items maxItems maxChars selected := by
  obtain ⟨stop, retained, hwindow, hend⟩ := selected_window py items maxItems maxChars
  refine ⟨boundedModelInputItems_sublist, selectedIndices py items maxItems maxChars,
    hwindow.inside, rfl, ?_⟩
  constructor
  case user => exact fun index hlatest => hwindow.user (mem_userSet.mpr hlatest)
  case pairs => exact hwindow.pairs
  case bounded =>
    rw [boundedModelInputItems_length, modelInputChars_bounded]
    obtain hbase | ⟨hcard, hchars⟩ := hwindow.fits_or hend
    · exact .inr hbase
    · exact fits_or_base hwindow.inside (hwindow.base_subset hend) hcard hchars
  case suffix =>
    intro skipped hlen hskipped index hindex hlt
    -- the walk stopped after the skipped item, which it has not visited
    have hstop : skipped < stop := by
      by_contra hvisited
      exact hskipped (hwindow.visited skipped (by omega) hlen)
    obtain hlatest | ⟨later, hlater, hlaterLen, hsame⟩ := hwindow.reached index hindex (by omega)
    · exact .inl hlatest
    · exact .inr ⟨later, by omega, hlaterLen, hsame⟩

/-- The text of objects of plain strings. -/
def plainText : PyText where
  str
    | .str text => text
    | _ => ""
  dumps item :=
    ⟨"\x7b" ++ ", ".intercalate (item.map fun field =>
        match field.2 with
        | .str text => "\"" ++ field.1 ++ "\": \"" ++ text ++ "\""
        | _ => "") ++ "\x7d", by
      intro hempty
      have hlength := congrArg String.length hempty
      simp only [String.length_append] at hlength
      exact absurd hlength (by simp)⟩

/-- A function call, its output as the latest user item, and a message. -/
def userOutput : List Item :=
  [[("call_id", .str "c"), ("type", .str "function_call")],
    [("call_id", .str "c"), ("role", .str "user"), ("type", .str "function_call_output")],
    [("content", .str "done"), ("role", .str "assistant")]]

/-- An output that is the latest user item is kept without its function
call. -/
theorem boundedModelInputItems_splits_user :
    pairIndices plainText userOutput "c" = {0, 1} ∧
    boundedModelInputItems plainText userOutput 2 1000 = userOutput.drop 1 := by
  decide +kernel

end Window

end InputWindow

end MineBot
