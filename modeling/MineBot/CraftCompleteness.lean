import Mathlib
import MineBot.CraftAllocation

/-!
# When the allocation is complete

Taking stacks as they come is no loss while each group, in the order the code
takes them, is disjoint from a later one or contained in it. Then
`allocateRecipeInputs` finds an allocation whenever there is one, and
`missingRecipeInputs` is empty exactly then.

For a recipe that is not so there is an inventory where the first group that
is served takes what a later one cannot do without: one item in each slot,
those the later group needs in front (`units`).
-/

namespace MineBot

namespace Craft

open Matching

/-! ## What a group takes from the pool -/

/-- The item of the group, whatever the stack. -/
def Accepts (group : Group) (key : ItemName) : Prop := fits (some key) group = true

theorem left_of_not_mem {κ : Type} [DecidableEq κ] {d : Dict κ Nat} {k : κ}
    (h : k ∉ d.map Prod.fst) : left d k = 0 := by
  rw [left, Dict.get?_eq_none h, Option.getD_none]

/-- Between two states of the loops, some units of the group's items are
taken. -/
structure Drains (group : Group) (need : Nat) (s s' : Nat × Dict ItemName Nat)
    (picks : List ItemName) : Prop where
  accepted : ∀ key ∈ picks, Accepts group key
  spent : Spent (left s.2) (left s'.2) picks
  count : s'.1 = s.1 + picks.length
  most : s'.1 ≤ max s.1 need
  keys : s'.2.map Prod.fst = s.2.map Prod.fst

variable {group : Group} {need : Nat}

theorem Drains.refl (s : Nat × Dict ItemName Nat) : Drains group need s s [] :=
  ⟨fun _ h => absurd h List.not_mem_nil, .refl, rfl, le_max_left .., rfl⟩

theorem Drains.trans {s s' s'' : Nat × Dict ItemName Nat} {picks picks' : List ItemName}
    (h : Drains group need s s' picks) (h' : Drains group need s' s'' picks') :
    Drains group need s s'' (picks ++ picks') := by
  refine ⟨fun key hkey => ?_, h.spent.append h'.spent, ?_, ?_, h'.keys.trans h.keys⟩
  · exact (List.mem_append.mp hkey).elim (h.accepted key) (h'.accepted key)
  · rw [h'.count, h.count, List.length_append]
    omega
  · have := h.most
    have := h'.most
    omega

/-- What was used up stays so. -/
theorem Drains.zero {s s' : Nat × Dict ItemName Nat} {picks : List ItemName}
    (h : Drains group need s s' picks) {key : ItemName} (hkey : s.1 < need → left s.2 key = 0)
    (hless : s'.1 < need) : left s'.2 key = 0 := by
  have hspent := h.spent key
  have hcount := h.count
  have := hkey (by omega)
  omega

variable (need) in
theorem takeKey_drains {option : ItemName} (hoption : option ∈ group)
    (s : Nat × Dict ItemName Nat) {key : ItemName} (hkey : key ∈ s.2.map Prod.fst) :
    (∃ picks, Drains group need s (takeKey option need s key) picks) ∧
      (sameItem (some key) option = true → (takeKey option need s key).1 < need →
        left (takeKey option need s key).2 key = 0) := by
  rw [takeKey]
  split
  · next h =>
      simp only [Bool.and_eq_true, decide_eq_true_eq] at h
      obtain ⟨hless, hsame⟩ := h
      constructor
      · refine ⟨List.replicate (min (left s.2 key) (need - s.1)) key, ?_, ?_, ?_, ?_, ?_⟩
        · intro key' hkey'
          rw [List.eq_of_mem_replicate hkey']
          exact List.any_eq_true.mpr ⟨option, hoption, hsame⟩
        · refine .replicate (min_le_left ..) ?_ fun key' hne => ?_
          · rw [left_set, Function.update_self]
          · rw [left_set, Function.update_of_ne hne]
        · rw [List.length_replicate]
        · show s.1 + min (left s.2 key) (need - s.1) ≤ max s.1 need
          omega
        · rw [Dict.keys_set, if_pos hkey]
      · intro _ hmore
        rw [left_set, Function.update_self]
        have : s.1 + min (left s.2 key) (need - s.1) < need := hmore
        omega
  · next h =>
      refine ⟨⟨[], .refl s⟩, fun hsame hless => ?_⟩
      rw [Bool.and_eq_true, decide_eq_true_eq] at h
      exact absurd ⟨hless, hsame⟩ h

variable (need) in
theorem takeKeys_drains {option : ItemName} (hoption : option ∈ group) (keys : List ItemName)
    (s : Nat × Dict ItemName Nat) (hkeys : ∀ key ∈ keys, key ∈ s.2.map Prod.fst) :
    (∃ picks, Drains group need s (keys.foldl (takeKey option need) s) picks) ∧
      ∀ key ∈ keys, sameItem (some key) option = true →
        (keys.foldl (takeKey option need) s).1 < need →
        left (keys.foldl (takeKey option need) s).2 key = 0 := by
  induction keys generalizing s with
  | nil => exact ⟨⟨[], .refl s⟩, fun _ h => absurd h List.not_mem_nil⟩
  | cons key keys ih =>
      obtain ⟨⟨picks, hfirst⟩, hzero⟩ :=
        takeKey_drains need hoption s (hkeys key List.mem_cons_self)
      obtain ⟨⟨picks', hrest⟩, hrestZero⟩ := ih (takeKey option need s key) fun key' hkey' => by
        rw [hfirst.keys]
        exact hkeys key' (List.mem_cons_of_mem _ hkey')
      refine ⟨⟨picks ++ picks', hfirst.trans hrest⟩, fun key' hkey' hsame hless => ?_⟩
      rcases List.mem_cons.mp hkey' with rfl | hkey'
      · exact hrest.zero (hzero hsame) hless
      · exact hrestZero key' hkey' hsame hless

variable (need) in
theorem options_drain (options : List ItemName) (hoptions : ∀ option ∈ options, option ∈ group)
    (s : Nat × Dict ItemName Nat) :
    let s' := options.foldl (fun s option => (s.2.map Prod.fst).foldl (takeKey option need) s) s
    (∃ picks, Drains group need s s' picks) ∧
      ∀ key ∈ s.2.map Prod.fst, fits (some key) options = true → s'.1 < need →
        left s'.2 key = 0 := by
  induction options generalizing s with
  | nil => exact ⟨⟨[], .refl s⟩, fun _ _ h => by cases h⟩
  | cons option options ih =>
      obtain ⟨⟨picks, hfirst⟩, hzero⟩ := takeKeys_drains need
        (hoptions option List.mem_cons_self) (s.2.map Prod.fst) s fun _ h => h
      obtain ⟨⟨picks', hrest⟩, hrestZero⟩ :=
        ih (fun option h => hoptions option (List.mem_cons_of_mem _ h))
          ((s.2.map Prod.fst).foldl (takeKey option need) s)
      refine ⟨⟨picks ++ picks', hfirst.trans hrest⟩, fun key hkey hfits hless => ?_⟩
      rw [fits, List.any_cons, Bool.or_eq_true] at hfits
      rcases hfits with hsame | hfits
      · exact hrest.zero (hzero key hkey hsame) hless
      · exact hrestZero key (by rw [hfirst.keys]; exact hkey) hfits hless

/-- **What a group takes**: its items, as many as it needs or all there are. -/
theorem drain_spec (group : Group) (need : Nat) (pool : Dict ItemName Nat) :
    ∃ picks, Drains group need (0, pool) (drain group need pool) picks ∧
      ((drain group need pool).1 < need →
        ∀ key, Accepts group key → left (drain group need pool).2 key = 0) := by
  obtain ⟨⟨picks, hdrains⟩, hzero⟩ := options_drain need group (fun _ h => h) (0, pool)
  refine ⟨picks, hdrains, fun hless key hkey => ?_⟩
  by_cases hmem : key ∈ pool.map Prod.fst
  · exact hzero key hmem hkey hless
  · have hkeys : (drain group need pool).2.map Prod.fst = pool.map Prod.fst := hdrains.keys
    exact left_of_not_mem fun h => hmem (hkeys ▸ h)

/-- So many of each group. -/
def unitsOf (needs : List (Group × Nat)) : List Group :=
  needs.flatMap fun e => List.replicate e.2 e.1

theorem missingFrom_cons (pool : Dict ItemName Nat) (group : Group) (need : Nat)
    (needs : List (Group × Nat)) :
    missingFrom pool ((group, need) :: needs) =
      (if (drain group need pool).1 < need then [⟨group, need, (drain group need pool).1⟩] else []) ++
        missingFrom (drain group need pool).2 needs := rfl

theorem unitsOf_cons (group : Group) (need : Nat) (needs : List (Group × Nat)) :
    unitsOf ((group, need) :: needs) = List.replicate need group ++ unitsOf needs := rfl

theorem feasible_of_missingFrom {pool : Dict ItemName Nat} {needs : List (Group × Nat)}
    (h : missingFrom pool needs = []) : Feasible Accepts (left pool) (unitsOf needs) := by
  induction needs generalizing pool with
  | nil => exact ⟨[], .nil⟩
  | cons e needs ih =>
      obtain ⟨group, need⟩ := e
      obtain ⟨picks, hdrains, -⟩ := drain_spec group need pool
      rw [missingFrom_cons] at h
      obtain ⟨hfirst, hrest⟩ := List.append_eq_nil_iff.mp h
      obtain ⟨picks', hserves⟩ := ih hrest
      have hcount : (drain group need pool).1 = picks.length := hdrains.count.trans (Nat.zero_add _)
      have hmost : (drain group need pool).1 ≤ max 0 need := hdrains.most
      have hlength : picks.length = need := by
        split at hfirst
        · cases hfirst
        · omega
      refine ⟨picks ++ picks', .append ?_ hdrains.spent hserves⟩
      rw [← hlength]
      refine List.forall₂_iff_get.mpr ⟨List.length_replicate, fun i hi hi' => ?_⟩
      rw [List.get_eq_getElem, List.getElem_replicate]
      exact hdrains.accepted _ (List.get_mem ..)

theorem missingFrom_eq_nil {pool : Dict ItemName Nat} {needs : List (Group × Nat)}
    (hnests : (unitsOf needs).Pairwise (Nests Accepts))
    (h : Feasible Accepts (left pool) (unitsOf needs)) : missingFrom pool needs = [] := by
  induction needs generalizing pool with
  | nil => rfl
  | cons e needs ih =>
      obtain ⟨group, need⟩ := e
      obtain ⟨picks, hdrains, hzero⟩ := drain_spec group need pool
      have hcount : (drain group need pool).1 = picks.length := hdrains.count.trans (Nat.zero_add _)
      have hmost : (drain group need pool).1 ≤ max 0 need := hdrains.most
      rw [unitsOf_cons] at h hnests
      obtain ⟨-, hrest, hacross⟩ := List.pairwise_append.mp hnests
      have hspent := h.spend
        (fun hpos => hacross group (List.mem_replicate.mpr ⟨hpos.ne', rfl⟩)) hdrains.accepted
        hdrains.spent (by omega)
      -- a unit that is still needed would be left in the pool
      have hall : ¬ (drain group need pool).1 < need := by
        intro hless
        obtain ⟨m, hm⟩ : ∃ m, need - picks.length = m + 1 := ⟨need - picks.length - 1, by omega⟩
        rw [hm, List.replicate_succ, List.cons_append] at hspent
        obtain ⟨picks', hserves⟩ := hspent
        obtain _ | ⟨hkey, -⟩ := hserves.admitted
        next key picks' =>
        have hwithin := hserves.within key
        have hleft : left (drain group need pool).2 key = 0 := hzero hless key hkey
        rw [List.count_cons_self, hleft] at hwithin
        omega
      have hdone : need - picks.length = 0 := by omega
      rw [hdone, List.replicate_zero, List.nil_append] at hspent
      rw [missingFrom_cons, if_neg hall, List.nil_append]
      exact ih hrest hspent

/-! ## The pool and the stacks -/

/-- The slots of the main inventory that hold something. -/
def occupied (inv : Inventory) : List InventorySlot := inv.main.filter fun slot => !slot.empty

/-- The item of the slot with the index, as the pool has it. -/
def itemOf (inv : Inventory) (i : Int) : Option ItemName :=
  ((occupied inv).find? fun slot => slot.slot = i).bind fun slot => slot.item.map normalizeRecipeItem

theorem mem_occupied {inv : Inventory} {slot : InventorySlot} :
    slot ∈ occupied inv ↔ slot ∈ inv.main ∧ slot.empty = false := by
  rw [occupied, List.mem_filter, Bool.not_eq_true']

theorem itemOf_of_mem {inv : Inventory} {slot : InventorySlot} (h : slot ∈ occupied inv) :
    itemOf inv slot.slot = slot.item.map normalizeRecipeItem := by
  have hfind : (occupied inv).find? (fun slot' => slot'.slot = slot.slot) = some slot := by
    cases hfind : (occupied inv).find? (fun slot' => slot'.slot = slot.slot) with
    | none => exact absurd (decide_eq_true rfl) (List.find?_eq_none.mp hfind slot h)
    | some slot' =>
        have hmem := (mem_occupied.mp (List.mem_of_find?_eq_some hfind)).1
        have hslot := List.find?_some hfind
        rw [main_ext hmem (mem_occupied.mp h).1 (of_decide_eq_true hslot)]
  rw [itemOf, hfind, Option.bind_some]

theorem gives_iff {inv : Inventory} {group : Group} {i : Int} :
    Gives inv group i ↔ i ∈ (occupied inv).map InventorySlot.slot ∧
      ∃ key, itemOf inv i = some key ∧ Accepts group key := by
  constructor
  · rintro ⟨slot, hmem, rfl, hempty, hfits⟩
    have hslot := mem_occupied.mpr ⟨hmem, hempty⟩
    refine ⟨List.mem_map_of_mem hslot, ?_⟩
    rw [itemOf_of_mem hslot]
    cases hitem : slot.item with
    | none => simp [hitem, fits, sameItem] at hfits
    | some item =>
        rw [hitem] at hfits
        exact ⟨_, rfl, (fits_normalizeRecipeItem item group).trans hfits⟩
  · rintro ⟨hi, key, hkey, haccepts⟩
    obtain ⟨slot, hslot, rfl⟩ := List.mem_map.mp hi
    rw [itemOf_of_mem hslot] at hkey
    obtain ⟨item, hitem, rfl⟩ := Option.map_eq_some_iff.mp hkey
    obtain ⟨hmem, hempty⟩ := mem_occupied.mp hslot
    refine ⟨slot, hmem, rfl, hempty, ?_⟩
    rw [hitem]
    exact (fits_normalizeRecipeItem item group).symm.trans haccepts

theorem left_pool (slots : List InventorySlot) (key : ItemName) :
    left (pool slots) key = (((slots.filter fun slot => !slot.empty).filter fun slot =>
      slot.item.map normalizeRecipeItem = some key).map InventorySlot.count).sum := by
  have hfold : ∀ counts : Dict ItemName Nat,
      left (slots.foldl addToPool counts) key = left counts key +
        (((slots.filter fun slot => !slot.empty).filter fun slot =>
          slot.item.map normalizeRecipeItem = some key).map InventorySlot.count).sum := by
    induction slots with
    | nil => exact fun _ => rfl
    | cons slot slots ih =>
        intro counts
        rw [List.foldl_cons, ih, addToPool]
        cases hempty : slot.empty with
        | true => cases hitem : slot.item <;> simp [hempty]
        | false =>
            cases hitem : slot.item with
            | none => simp [hempty, hitem]
            | some item =>
                simp only [left_set, Function.update_apply, Bool.false_eq_true, if_false,
                  List.filter_cons, hempty, Bool.not_false, if_true, hitem, Option.map_some,
                  Option.some.injEq, decide_eq_true_eq]
                by_cases heq : normalizeRecipeItem item = key
                · rw [if_pos heq.symm, if_pos heq, List.map_cons, List.sum_cons, heq]
                  omega
                · rw [if_neg (Ne.symm heq), if_neg heq]
  rw [pool, hfold]
  exact Nat.zero_add _

theorem left_pool_main (inv : Inventory) :
    left (pool inv.main) = total ((occupied inv).map InventorySlot.slot) (itemOf inv) (held inv) := by
  funext key
  rw [left_pool, total, List.filter_map, List.map_map]
  refine congrArg List.sum ?_
  have hfilter : (occupied inv).filter ((fun i => decide (itemOf inv i = some key)) ∘ InventorySlot.slot)
      = (occupied inv).filter fun slot => slot.item.map normalizeRecipeItem = some key := by
    refine List.filter_congr fun slot hslot => ?_
    rw [Function.comp_apply, itemOf_of_mem hslot]
  rw [hfilter]
  refine List.map_congr_left fun slot hslot => ?_
  obtain ⟨hmem, hempty⟩ := mem_occupied.mp (List.mem_of_mem_filter hslot)
  exact (held_of_mem hmem hempty).symm

/-- Stacks supply what the items of the pool do. -/
theorem suppliable_iff_pool (inv : Inventory) (variant : CraftRecipeVariant) (crafts : Nat) :
    Suppliable inv variant crafts ↔
      Feasible Accepts (left (pool inv.main)) (required variant crafts) := by
  have hnodup : ((occupied inv).map InventorySlot.slot).Nodup :=
    (nodup_main inv).sublist (List.filter_sublist.map _)
  have hgives : ∀ group i, Gives inv group i ↔ i ∈ (occupied inv).map InventorySlot.slot ∧
      ∃ key, itemOf inv i = some key ∧ Accepts group key := fun _ _ => gives_iff
  rw [Suppliable, left_pool_main]
  exact feasible_total_iff hnodup hgives _

/-! ## What the groups need -/

theorem perm_unitsOf_set (needs : Dict Group Nat) (group : Group) (n : Nat) :
    (unitsOf (needs.set group (left needs group + n))).Perm
      (unitsOf needs ++ List.replicate n group) := by
  induction needs with
  | nil => simp [Dict.set, unitsOf, left]
  | cons e needs ih =>
      obtain ⟨group', m⟩ := e
      by_cases h : group' = group
      · subst h
        rw [Dict.set, if_pos rfl, unitsOf_cons, unitsOf_cons, left, Dict.get?_cons, if_pos rfl,
          Option.getD_some, ← List.replicate_append_replicate, List.append_assoc, List.append_assoc]
        exact List.perm_append_comm.append_left _
      · rw [Dict.set, if_neg h, unitsOf_cons, unitsOf_cons, left, Dict.get?_cons, if_neg h,
          List.append_assoc]
        exact ih.append_left _

theorem needed_spec (groups : List Group) (crafts : Nat) (needs : Dict Group Nat) :
    let needs' := groups.foldl (fun needed group =>
      needed.set group (left needed group + crafts)) needs
    (unitsOf needs').Perm (unitsOf needs ++ groups.flatMap (List.replicate crafts)) ∧
      ∃ groups', groups'.Sublist groups ∧
        needs'.map Prod.fst = needs.map Prod.fst ++ groups' := by
  induction groups generalizing needs with
  | nil => exact ⟨by simp, [], .slnil, by simp⟩
  | cons group groups ih =>
      obtain ⟨hperm, groups', hsub, hkeys⟩ := ih (needs.set group (left needs group + crafts))
      constructor
      · rw [List.flatMap_cons, ← List.append_assoc]
        exact hperm.trans ((perm_unitsOf_set ..).append_right _)
      · rw [Dict.keys_set] at hkeys
        split at hkeys
        · exact ⟨groups', hsub.cons _, hkeys⟩
        · rw [List.append_assoc, List.singleton_append] at hkeys
          exact ⟨group :: groups', hsub.cons_cons _, hkeys⟩

theorem unitsOf_needed (variant : CraftRecipeVariant) (crafts : Nat) :
    (unitsOf (needed variant crafts)).Perm (required variant crafts) :=
  (needed_spec variant.groups crafts []).1

theorem keys_needed (variant : CraftRecipeVariant) (crafts : Nat) :
    ((needed variant crafts).map Prod.fst).Sublist variant.groups := by
  obtain ⟨-, groups', hsub, hkeys⟩ := needed_spec variant.groups crafts []
  exact hkeys ▸ hsub

/-! ## The order of the groups -/

section

variable {α : Type} (size : α → Nat) (R : α → α → Prop)

/-- The relation holds in the order of the sizes, and of the list where they
are the same. -/
def InOrder (a b : α) : Prop := (size a ≤ size b → R a b) ∧ (size b < size a → R b a)

/-- `sorted(l, key=size)` -/
abbrev sortedBy (l : List α) : List α := l.insertionSort fun a b => size a ≤ size b

instance isTrans_size : IsTrans α fun a b => size a ≤ size b := ⟨fun _ _ _ => le_trans⟩

instance total_size : Std.Total fun a b : α => size a ≤ size b := ⟨fun _ _ => le_total ..⟩

variable {size R}

theorem pairwise_orderedInsert {a : α} {l : List α} (ha : ∀ b ∈ l, InOrder size R a b)
    (hsorted : l.Pairwise fun a b => size a ≤ size b) (hl : l.Pairwise R) :
    (l.orderedInsert (fun a b => size a ≤ size b) a).Pairwise R := by
  induction l with
  | nil => exact List.pairwise_singleton ..
  | cons b l ih =>
      obtain ⟨hb, hsorted'⟩ := List.pairwise_cons.mp hsorted
      obtain ⟨hRb, hl'⟩ := List.pairwise_cons.mp hl
      rw [List.orderedInsert_cons]
      split
      · next hle =>
          refine List.pairwise_cons.mpr ⟨fun c hc => (ha c hc).1 ?_, hl⟩
          rcases List.mem_cons.mp hc with rfl | hc
          · exact hle
          · exact hle.trans (hb c hc)
      · next hlt =>
          refine List.pairwise_cons.mpr ⟨fun c hc => ?_,
            ih (fun c hc => ha c (List.mem_cons_of_mem _ hc)) hsorted' hl'⟩
          rcases List.mem_cons.mp ((List.perm_orderedInsert _ _ _).mem_iff.mp hc) with rfl | hc
          · exact (ha b List.mem_cons_self).2 (not_le.mp hlt)
          · exact hRb c hc

theorem pairwise_sortedBy {l : List α} (h : l.Pairwise (InOrder size R)) :
    (sortedBy size l).Pairwise R := by
  induction l with
  | nil => exact .nil
  | cons a l ih =>
      obtain ⟨ha, hl⟩ := List.pairwise_cons.mp h
      exact pairwise_orderedInsert (fun b hb => ha b ((List.mem_insertionSort _).mp hb))
        (List.pairwise_insertionSort _ _) (ih hl)

/-- What holds after sorting holds in order. -/
theorem inOrder_of_sortedBy {l : List α} (h : (sortedBy size l).Pairwise R) :
    l.Pairwise (InOrder size R) := by
  refine List.pairwise_iff_forall_sublist.mpr fun {a b} hsub => ⟨fun hle => ?_, fun hlt => ?_⟩
  · exact List.pairwise_iff_forall_sublist.mp h (List.pair_sublist_insertionSort hle hsub)
  · have hmem : ∀ c ∈ [a, b], c ∈ sortedBy size l := fun c hc =>
      (List.mem_insertionSort _).mpr (hsub.subset hc)
    obtain ⟨i, hi, rfl⟩ := List.mem_iff_getElem.mp (hmem b (by simp))
    obtain ⟨j, hj, rfl⟩ := List.mem_iff_getElem.mp (hmem a (by simp))
    have hsorted := List.pairwise_iff_getElem.mp
      (List.pairwise_insertionSort (fun a b => size a ≤ size b) l)
    rcases lt_trichotomy i j with hij | rfl | hji
    · exact List.pairwise_iff_getElem.mp h i j hi hj hij
    · exact absurd hlt (lt_irrefl _)
    · exact absurd (hsorted j i hj hi hji) (not_le.mpr hlt)

end

/-- All that goes into the one goes into the other, if anything does. -/
def Covers (group group' : Group) : Prop :=
  (∃ item ∈ group, fits (some item) group' = true) →
    ∀ item ∈ group, fits (some item) group' = true

/-- In the order in which the code serves them, narrow groups first, each
group is disjoint from a later one or contained in it. -/
def Nested (variant : CraftRecipeVariant) : Prop :=
  variant.groups.Pairwise (InOrder List.length Covers)

instance (group group' : Group) : Decidable (Covers group group') :=
  inferInstanceAs (Decidable (_ → _))

instance : DecidableRel (InOrder List.length Covers) :=
  fun _ _ => inferInstanceAs (Decidable (_ ∧ _))

instance : DecidablePred Nested := fun _ => inferInstanceAs (Decidable (List.Pairwise _ _))

theorem accepts_iff {group : Group} {key : ItemName} :
    Accepts group key ↔ ∃ item ∈ group, key.path = item.path := fits_iff

theorem nests_accepts {group group' : Group} (h : Covers group group') :
    Nests Accepts group group' := by
  intro key hkey hkey' other hother
  obtain ⟨item, hitem, hpath⟩ := accepts_iff.mp hkey
  obtain ⟨item', hitem', hpath'⟩ := accepts_iff.mp hkey'
  have hall := h ⟨item, hitem, fits_iff.mpr ⟨item', hitem', hpath.symm.trans hpath'⟩⟩
  obtain ⟨option, hoption, heq⟩ := accepts_iff.mp hother
  obtain ⟨option', hoption', heq'⟩ := fits_iff.mp (hall option hoption)
  exact accepts_iff.mpr ⟨option', hoption', heq.trans heq'⟩

theorem nests_gives (inv : Inventory) {group group' : Group} (h : Covers group group') :
    Nests (Gives inv) group group' := by
  intro i hi hi' j hj
  obtain ⟨hslot, key, hkey, haccepts⟩ := gives_iff.mp hi
  obtain ⟨-, key', hkey', haccepts'⟩ := gives_iff.mp hi'
  rw [hkey, Option.some.injEq] at hkey'
  subst hkey'
  obtain ⟨hslot', other, hother, haccepts''⟩ := gives_iff.mp hj
  exact gives_iff.mpr ⟨hslot', other, hother, nests_accepts h key haccepts haccepts' other haccepts''⟩

theorem Covers.refl (group : Group) : Covers group group := fun _ item hitem =>
  fits_iff.mpr ⟨item, hitem, rfl⟩

/-- The groups nest as they are required. -/
theorem Nested.pairwise_requirements {variant : CraftRecipeVariant} (h : Nested variant) (crafts : Nat) :
    (requirements variant crafts).Pairwise Covers := by
  refine pairwise_sortedBy (List.pairwise_flatMap.mpr ⟨fun group _ => ?_, h.imp ?_⟩)
  · exact List.pairwise_replicate.mpr (.inr ⟨fun _ => .refl group, fun _ => .refl group⟩)
  · intro group group' hgroups x hx y hy
    rw [List.eq_of_mem_replicate hx, List.eq_of_mem_replicate hy]
    exact hgroups

/-- And as they are needed. -/
theorem Nested.pairwise_needed {variant : CraftRecipeVariant} (h : Nested variant) (crafts : Nat) :
    (unitsOf (sortedBy (fun e => e.1.length) (needed variant crafts))).Pairwise Covers := by
  have hkeys : (needed variant crafts).Pairwise (InOrder (fun e => e.1.length) fun e e' =>
      Covers e.1 e'.1) := by
    have := h.sublist (keys_needed variant crafts)
    rwa [List.pairwise_map] at this
  refine List.pairwise_flatMap.mpr ⟨fun e _ => ?_, (pairwise_sortedBy hkeys).imp ?_⟩
  · exact List.pairwise_replicate.mpr (.inr (.refl e.1))
  · intro e e' hcovers x hx y hy
    rw [List.eq_of_mem_replicate hx, List.eq_of_mem_replicate hy]
    exact hcovers

/-- The code settles whether the ingredients can be supplied, and how. -/
structure Complete (inv : Inventory) (variant : CraftRecipeVariant) (crafts : Nat) : Prop where
  found : (allocateRecipeInputs inv variant crafts).isSome ↔ Suppliable inv variant crafts
  right : ∀ inputs items, allocateRecipeInputs inv variant crafts = some (inputs, items) →
    IsAllocation inv variant crafts inputs
  missing : missingRecipeInputs inv variant crafts = [] ↔ Suppliable inv variant crafts

theorem allocation_isSome_iff (inv : Inventory) (variant : CraftRecipeVariant) (crafts : Nat) :
    (allocateRecipeInputs inv variant crafts).isSome ↔
      (greedy (largestStack inv) (held inv) (requirements variant crafts)).isSome := by
  rcases allocateRecipeInputs_spec inv variant crafts with
    ⟨hgreedy, hnone⟩ | ⟨picks, inputs, items, hgreedy, hsome, -⟩
  · rw [hgreedy, hnone]
    exact Iff.rfl
  · rw [hgreedy, hsome]
    exact Iff.rfl

/-- **For a nested recipe both loops are complete.** -/
theorem Nested.complete {variant : CraftRecipeVariant} (h : Nested variant) (inv : Inventory)
    (crafts : Nat) : Complete inv variant crafts where
  found := by
    rw [allocation_isSome_iff, greedy_isSome_iff _ ((h.pairwise_requirements crafts).imp (nests_gives inv)),
      Suppliable, feasible_perm_iff (requirements_perm variant crafts)]
  right := by
    intro inputs items heq
    rcases allocateRecipeInputs_spec inv variant crafts with
      ⟨-, hnone⟩ | ⟨picks, inputs', items', -, hsome, hallocation⟩
    · rw [hnone] at heq
      cases heq
    · rw [hsome] at heq
      cases heq
      exact hallocation
  missing := by
    have hperm : (unitsOf (sortedBy (fun e => e.1.length) (needed variant crafts))).Perm
        (required variant crafts) :=
      ((List.perm_insertionSort _ _).flatMap_right _).trans (unitsOf_needed variant crafts)
    rw [suppliable_iff_pool, ← feasible_perm_iff hperm]
    exact ⟨feasible_of_missingFrom, missingFrom_eq_nil ((h.pairwise_needed crafts).imp nests_accepts)⟩

/-! ## Single items -/

/-- One item in each slot. -/
def units (items : List ItemName) : Inventory where
  slots := items.zipIdx.map fun e => ⟨e.2, some e.1, 1, false⟩
  distinct := by
    have hslots : (items.zipIdx.map fun e => (⟨e.2, some e.1, 1, false⟩ : InventorySlot)).map
        InventorySlot.slot = (List.range items.length).map Nat.cast := by
      rw [List.map_map, List.range_eq_range', ← List.zipIdx_map_snd 0 items, List.map_map]
      rfl
    rw [hslots]
    exact List.nodup_range.map Nat.cast_injective

section

variable {items : List ItemName}

theorem mem_main_units (h : items.length ≤ 36) {slot : InventorySlot} :
    slot ∈ (units items).main ↔
      ∃ (i : Nat) (hi : i < items.length), slot = ⟨i, some items[i], 1, false⟩ := by
  rw [Inventory.main, List.mem_filter, units, List.mem_map]
  constructor
  · rintro ⟨⟨⟨item, i⟩, he, rfl⟩, -⟩
    obtain ⟨hi, rfl⟩ := List.getElem?_eq_some_iff.mp (List.mk_mem_zipIdx_iff_getElem?.mp he)
    exact ⟨i, hi, rfl⟩
  · rintro ⟨i, hi, rfl⟩
    refine ⟨⟨(items[i], i), List.mk_mem_zipIdx_iff_getElem?.mpr (List.getElem?_eq_getElem hi), rfl⟩,
      ?_⟩
    simp only [Bool.and_eq_true, decide_eq_true_eq]
    omega

theorem gives_units (h : items.length ≤ 36) {group : Group} {p : Int} :
    Gives (units items) group p ↔
      ∃ (i : Nat) (hi : i < items.length), p = i ∧ Accepts group items[i] := by
  constructor
  · rintro ⟨slot, hmem, rfl, -, hfits⟩
    obtain ⟨i, hi, rfl⟩ := (mem_main_units h).mp hmem
    exact ⟨i, hi, rfl, hfits⟩
  · rintro ⟨i, hi, rfl, haccepts⟩
    exact ⟨_, (mem_main_units h).mpr ⟨i, hi, rfl⟩, rfl, rfl, haccepts⟩

theorem held_units (h : items.length ≤ 36) {i : Nat} (hi : i < items.length) :
    held (units items) i = 1 := by
  have hmem : (⟨i, some items[i], 1, false⟩ : InventorySlot) ∈ (units items).main :=
    (mem_main_units h).mpr ⟨i, hi, rfl⟩
  exact held_of_mem hmem rfl

theorem held_units_le (h : items.length ≤ 36) (p : Int) : held (units items) p ≤ 1 := by
  by_cases hp : p ∈ (stock (units items).main).map Prod.fst
  · obtain ⟨e, he, rfl⟩ := List.mem_map.mp hp
    obtain ⟨slot, hslot, rfl⟩ := List.mem_map.mp he
    obtain ⟨i, hi, rfl⟩ := (mem_main_units h).mp (List.mem_of_mem_filter hslot)
    exact (held_units h hi).le
  · rw [held, left_of_not_mem hp]
    exact Nat.zero_le 1

/-- Each group takes the item in its place. -/
theorem serves_units {groups : List Group} (hlength : groups.length = items.length)
    (h : items.length ≤ 36)
    (haccepts : ∀ i (hi : i < items.length) (hi' : i < groups.length), Accepts groups[i] items[i]) :
    Serves (Gives (units items)) (held (units items)) groups
      ((List.range items.length).map Nat.cast) := by
  refine ⟨List.forall₂_iff_get.mpr ⟨by simp [hlength], fun i hi hi' => ?_⟩, fun p => ?_⟩
  · have hi'' : i < items.length := hlength ▸ hi
    exact (gives_units h).mpr ⟨i, hi'', by simp, haccepts i hi'' hi⟩
  · have hnodup : ((List.range items.length).map (Nat.cast : Nat → Int)).Nodup :=
      List.nodup_range.map Nat.cast_injective
    by_cases hp : p ∈ (List.range items.length).map (Nat.cast : Nat → Int)
    · obtain ⟨i, hi, rfl⟩ := List.mem_map.mp hp
      rw [held_units h (List.mem_range.mp hi)]
      exact List.nodup_iff_count_le_one.mp hnodup _
    · rw [List.count_eq_zero_of_not_mem hp]
      exact Nat.zero_le _

end

/-! ## The lowest slot of single items -/

instance isTrans_before (remaining : Int → Nat) : IsTrans InventorySlot (Before remaining) where
  trans slot slot' slot'' h h' := by
    simp only [Before] at *
    omega

instance total_before (remaining : Int → Nat) : Std.Total (Before remaining) where
  total slot slot' := by
    simp only [Before]
    omega

theorem before_of_chosen? {slots : List InventorySlot} {remaining : Int → Nat} {group : Group}
    {slot slot' : InventorySlot} (h : chosen? slots remaining group = some slot)
    (hmem : slot' ∈ slots) (hempty : slot'.empty = false) (hpos : 0 < remaining slot'.slot)
    (hfits : fits slot'.item group = true) : Before remaining slot slot' := by
  have hcandidate : slot' ∈ (slots.filter fun slot =>
      !slot.empty && 0 < remaining slot.slot && fits slot.item group).insertionSort
        (Before remaining) := by
    rw [List.mem_insertionSort, List.mem_filter]
    simp [hmem, hempty, hpos, hfits]
  have hsorted := List.pairwise_insertionSort (Before remaining) (slots.filter fun slot =>
    !slot.empty && 0 < remaining slot.slot && fits slot.item group)
  obtain ⟨rest, hrest⟩ := List.head?_eq_some_iff.mp h
  rw [hrest] at hcandidate hsorted
  rcases List.mem_cons.mp hcandidate with rfl | hcandidate
  · exact .inr ⟨rfl, le_rfl⟩
  · exact (List.pairwise_cons.mp hsorted).1 slot' hcandidate

/-- Where no slot holds more than one item, a group takes none that is
behind one it leaves to a later group. -/
theorem pairwise_greedy {inv : Inventory} {capacity : Int → Nat} (hone : ∀ p, capacity p ≤ 1)
    {groups : List Group} {picks : List Int}
    (h : greedy (largestStack inv) capacity groups = some picks) :
    (groups.zip picks).Pairwise fun x y => Gives inv x.1 y.2 → x.2 ≤ y.2 := by
  induction groups generalizing capacity picks with
  | nil => exact .nil
  | cons group groups ih =>
      obtain ⟨p, ps, hp, hps, rfl⟩ := greedy_cons_eq_some h
      have hless : ∀ q, take capacity p q ≤ capacity q := by
        intro q
        by_cases hq : q = p
        · rw [hq, take_self]
          exact Nat.sub_le ..
        · rw [take_of_ne hq]
      refine List.pairwise_cons.mpr ⟨fun y hy hgives => ?_,
        ih (fun q => (hless q).trans (hone q)) hps⟩
      have hwithin := (greedy_serves hps).within y.2
      have hcount := List.count_pos_iff.mpr (List.of_mem_zip hy).2
      have hpos : 0 < capacity y.2 := (hcount.trans_le hwithin).trans_le (hless _)
      obtain ⟨slot, hslot, rfl⟩ := Option.map_eq_some_iff.mp hp
      obtain ⟨slot', hmem, hslot', hempty, hfits⟩ := hgives
      rw [← hslot'] at hpos ⊢
      have hbefore := before_of_chosen? hslot hmem hempty hpos hfits
      have := hone slot.slot
      simp only [Before] at hbefore
      omega

/-! ## Two groups that overlap -/

section

variable (a b : ItemName)

/-- The first item goes into the group, the second does not. -/
def onlyFirst (group : Group) : Bool := fits (some a) group && !fits (some b) group

/-- An item for the group: the second of the two where it fits, unless only
the first does. -/
def unitFor (group : Group) : ItemName :=
  if onlyFirst a b group then a else if fits (some b) group then b else group.headD b

/-- Those that only the first item goes into come first. -/
def unitGroups (groups : List Group) : List Group :=
  groups.filter (onlyFirst a b) ++ groups.filter fun group => !onlyFirst a b group

theorem perm_unitGroups (groups : List Group) : (unitGroups a b groups).Perm groups :=
  List.filter_append_perm ..

variable {a b} {group : Group}

theorem accepts_unitFor (hgroup : group ≠ []) : Accepts group (unitFor a b group) := by
  rw [unitFor]
  split
  · next h => exact (Bool.and_eq_true_iff.mp h).1
  · split
    · next h => exact h
    · cases group with
      | nil => exact absurd rfl hgroup
      | cons item group => exact fits_iff.mpr ⟨item, List.mem_cons_self, rfl⟩

/-- An item that is in no group with the other one has another path. -/
theorem accepts_of_path {x y : ItemName} (h : x.path = y.path) :
    Accepts group x ↔ Accepts group y := by
  rw [accepts_iff, accepts_iff, h]

theorem path_unitFor_first (hab : a.path ≠ b.path) (hgroup : group ≠ []) :
    (unitFor a b group).path = a.path ↔ onlyFirst a b group = true := by
  have haccepts := accepts_unitFor (a := a) (b := b) hgroup
  constructor
  · intro h
    have hfirst : fits (some a) group = true := (accepts_of_path h).mp haccepts
    rw [onlyFirst, hfirst, Bool.true_and, Bool.not_eq_true']
    by_contra hsecond
    rw [Bool.not_eq_false] at hsecond
    have hnot : onlyFirst a b group = false := by rw [onlyFirst, hsecond, Bool.not_true, Bool.and_false]
    rw [unitFor, hnot, hsecond] at h
    exact hab h.symm
  · intro h
    rw [unitFor, if_pos h]

theorem path_unitFor_neither (hgroup : group ≠ []) :
    ((unitFor a b group).path ≠ a.path ∧ (unitFor a b group).path ≠ b.path) ↔
      (fits (some a) group = false ∧ fits (some b) group = false) := by
  have haccepts := accepts_unitFor (a := a) (b := b) hgroup
  constructor
  · rintro ⟨ha, hb⟩
    have hsecond : fits (some b) group = false := by
      by_contra h
      rw [Bool.not_eq_false] at h
      rw [unitFor] at ha hb
      split at ha
      · exact ha rfl
      · next hnot =>
          rw [if_neg hnot, if_pos h] at hb
          exact hb rfl
    refine ⟨?_, hsecond⟩
    by_contra h
    rw [Bool.not_eq_false] at h
    have hfirst : onlyFirst a b group = true := by rw [onlyFirst, h, hsecond]; rfl
    rw [unitFor, if_pos hfirst] at ha
    exact ha rfl
  · rintro ⟨ha, hb⟩
    constructor
    · intro h
      rw [accepts_of_path h, Accepts, ha] at haccepts
      cases haccepts
    · intro h
      rw [accepts_of_path h, Accepts, hb] at haccepts
      cases haccepts

end

/-- Where as many have the one property as the other, and the one gives the
other, the other gives the one. -/
theorem of_countP_le {α : Type} {p q : α → Bool} {l : List α} (himp : ∀ x ∈ l, p x → q x)
    (hle : l.countP q ≤ l.countP p) : ∀ x ∈ l, q x → p x := by
  induction l with
  | nil => exact fun _ h => absurd h List.not_mem_nil
  | cons y l ih =>
      have hrest : l.countP p ≤ l.countP q :=
        List.countP_mono_left fun x hx => himp x (List.mem_cons_of_mem _ hx)
      have hy := himp y List.mem_cons_self
      rw [List.countP_cons, List.countP_cons] at hle
      intro x hx hq
      rcases List.mem_cons.mp hx with rfl | hx
      · by_contra hp
        rw [if_pos hq, if_neg hp] at hle
        omega
      · refine ih (fun x hx => himp x (List.mem_cons_of_mem _ hx)) ?_ x hx hq
        by_cases hp : p y = true
        · rw [if_pos hp, if_pos (hy hp)] at hle
          omega
        · rw [if_neg hp] at hle
          omega

/-- The picks of single items are the slots, in some order. -/
theorem perm_picks {items : List ItemName} (h : items.length ≤ 36) {groups : List Group}
    {picks : List Int} (hserves : Serves (Gives (units items)) (held (units items)) groups picks)
    (hlength : groups.length = items.length) :
    picks.Perm ((List.range items.length).map Nat.cast) := by
  have hnodup : picks.Nodup := List.nodup_iff_count_le_one.mpr fun p =>
    (hserves.within p).trans (held_units_le h p)
  have hsub : picks ⊆ (List.range items.length).map Nat.cast := by
    intro p hp
    obtain ⟨i, hi, rfl⟩ := List.mem_iff_getElem.mp hp
    have hi' : i < groups.length := hserves.length_eq ▸ hi
    have hgives := (List.forall₂_iff_get.mp hserves.admitted).2 i hi' hi
    obtain ⟨j, hj, hslot, -⟩ := (gives_units h).mp hgives
    exact List.mem_map.mpr ⟨j, List.mem_range.mpr hj, hslot.symm⟩
  refine (List.subperm_of_subset hnodup hsub).perm_of_length_le ?_
  rw [List.length_map, List.length_range, ← hlength, hserves.length_eq]

/-- The item in a slot of single items. -/
def itemAt (items : List ItemName) (p : Int) : Option ItemName := items[p.toNat]?

theorem countP_itemAt {items : List ItemName} {picks : List Int}
    (h : picks.Perm ((List.range items.length).map Nat.cast)) (p : ItemName → Bool) :
    picks.countP (fun i => (itemAt items i).any p) = items.countP p := by
  have hmap : (List.range items.length).map (fun i => items[i]?) = items.map some := by
    refine List.ext_getElem (by simp) fun i hi hi' => ?_
    rw [List.getElem_map, List.getElem_map, List.getElem_range, List.getElem?_eq_getElem]
  rw [h.countP_eq, List.countP_map]
  have hcount := List.countP_map (p := fun item : Option ItemName => item.any p)
    (f := fun i => items[i]?) (l := List.range items.length)
  rw [hmap, List.countP_map] at hcount
  exact hcount.symm

section

variable {a b : ItemName} {groups : List Group} {picks : List Int}

/-- The single items for the groups. -/
abbrev itemsFor (a b : ItemName) (groups : List Group) : List ItemName :=
  (unitGroups a b groups).map (unitFor a b)

theorem length_itemsFor (a b : ItemName) (groups : List Group) :
    (itemsFor a b groups).length = groups.length := by
  rw [itemsFor, List.length_map, (perm_unitGroups a b groups).length_eq]

theorem countP_itemsFor {p : ItemName → Bool} {q : Group → Bool}
    (h : ∀ group ∈ groups, p (unitFor a b group) = q group) :
    (itemsFor a b groups).countP p = groups.countP q := by
  rw [itemsFor, List.countP_map, (perm_unitGroups a b groups).countP_eq]
  exact List.countP_congr fun group hgroup => by rw [Function.comp_apply, h group hgroup]

/-- In any way to serve the groups from their single items, the first item
goes to the groups that only it goes into. -/
theorem first_iff_onlyFirst (hab : a.path ≠ b.path) (hnonempty : ∀ group ∈ groups, group ≠ [])
    (hfew : groups.length ≤ 36)
    (h : Serves (Gives (units (itemsFor a b groups))) (held (units (itemsFor a b groups))) groups
      picks) : ∀ z ∈ groups.zip picks,
      (itemAt (itemsFor a b groups) z.2).any (fun item => item.path = a.path) = true ↔
      onlyFirst a b z.1 = true := by
  have hlength := length_itemsFor a b groups
  have hperm := perm_picks (hlength.le.trans hfew) h hlength.symm
  have hfst : ∀ d : Group → Bool,
      (groups.zip picks).countP (fun z => d z.1) = groups.countP d := by
    intro d
    conv_rhs => rw [← List.map_fst_zip h.length_eq.le, List.countP_map]
    rfl
  have hsnd : ∀ d : ItemName → Bool, (groups.zip picks).countP
      (fun z => (itemAt (itemsFor a b groups) z.2).any d) = (itemsFor a b groups).countP d := by
    intro d
    rw [← countP_itemAt hperm]
    conv_rhs => rw [← List.map_snd_zip h.length_eq.ge, List.countP_map]
    rfl
  -- what a group is served is an item it accepts
  have hserved : ∀ z ∈ groups.zip picks, ∃ item, itemAt (itemsFor a b groups) z.2 = some item ∧
      Accepts z.1 item := by
    intro z hz
    obtain ⟨i, hi, rfl⟩ := List.mem_iff_getElem.mp hz
    rw [List.getElem_zip]
    rw [List.length_zip, lt_min_iff] at hi
    obtain ⟨hgroup, hpick⟩ := hi
    obtain ⟨j, hj, hslot, haccepts⟩ := (gives_units (hlength.le.trans hfew)).mp
      ((List.forall₂_iff_get.mp h.admitted).2 i hgroup hpick)
    have hslot' : picks[i] = (j : Int) := hslot
    refine ⟨_, ?_, haccepts⟩
    rw [itemAt, hslot', Int.toNat_natCast, List.getElem?_eq_getElem hj]
  -- as many slots as groups have neither of the items
  have hneither : ∀ z ∈ groups.zip picks,
      (itemAt (itemsFor a b groups) z.2).any
        (fun item => item.path ≠ a.path && item.path ≠ b.path) = true →
      (!fits (some a) z.1 && !fits (some b) z.1) = true := by
    refine of_countP_le (p := fun z : Group × Int => !fits (some a) z.1 && !fits (some b) z.1)
      (fun z hz hwithout => ?_) ?_
    · obtain ⟨item, hitem, haccepts⟩ := hserved z hz
      simp only [Bool.and_eq_true, Bool.not_eq_true'] at hwithout
      rw [hitem, Option.any_some]
      simp only [Bool.and_eq_true, decide_eq_true_eq]
      constructor
      · intro heq
        rw [accepts_of_path heq, Accepts, hwithout.1] at haccepts
        cases haccepts
      · intro heq
        rw [accepts_of_path heq, Accepts, hwithout.2] at haccepts
        cases haccepts
    · rw [hsnd, hfst fun group => !fits (some a) group && !fits (some b) group,
        countP_itemsFor fun group hgroup => ?_]
      rw [Bool.eq_iff_iff]
      simpa using path_unitFor_neither (a := a) (b := b) (hnonempty group hgroup)
  have hfirst : ∀ z ∈ groups.zip picks, onlyFirst a b z.1 = true →
      (itemAt (itemsFor a b groups) z.2).any (fun item => item.path = a.path) = true := by
    intro z hz honly
    obtain ⟨item, hitem, haccepts⟩ := hserved z hz
    have hfits := Bool.and_eq_true_iff.mp honly
    rw [Bool.not_eq_true'] at hfits
    rw [hitem, Option.any_some, decide_eq_true_eq]
    by_contra hne
    have hsecond : item.path ≠ b.path := by
      intro heq
      rw [accepts_of_path heq, Accepts, hfits.2] at haccepts
      cases haccepts
    have hnone := hneither z hz (by simp [hitem, hne, hsecond])
    rw [hfits.1] at hnone
    cases hnone
  -- and as many have the first one as only that goes into
  refine fun z hz => ⟨of_countP_le (p := fun z : Group × Int => onlyFirst a b z.1) hfirst ?_ z hz,
    hfirst z hz⟩
  · rw [hsnd, hfst (onlyFirst a b), countP_itemsFor fun group hgroup => ?_]
    rw [Bool.eq_iff_iff, decide_eq_true_eq]
    exact path_unitFor_first hab (hnonempty group hgroup)

end

/-- The first slots hold the first item, and no others do. -/
theorem itemAt_first {a b : ItemName} (hab : a.path ≠ b.path) {groups : List Group}
    (hnonempty : ∀ group ∈ groups, group ≠ []) {i : Nat} :
    (itemAt (itemsFor a b groups) i).any (fun item => item.path = a.path) = true ↔
      i < (groups.filter (onlyFirst a b)).length := by
  have hpath : ∀ group ∈ groups, (unitFor a b group).path = a.path ↔ onlyFirst a b group = true :=
    fun group hgroup => path_unitFor_first hab (hnonempty group hgroup)
  rw [itemAt, Int.toNat_natCast, itemsFor, unitGroups, List.getElem?_map]
  constructor
  · intro h
    by_contra hlast
    rw [List.getElem?_append_right (not_lt.mp hlast)] at h
    obtain ⟨item, hitem, heq⟩ := (Option.any_eq_true ..).mp h
    obtain ⟨group, hgroup, rfl⟩ := Option.map_eq_some_iff.mp hitem
    obtain ⟨hmem, hnot⟩ := List.mem_filter.mp (List.mem_of_getElem? hgroup)
    rw [(hpath group hmem).mp (of_decide_eq_true heq)] at hnot
    cases hnot
  · intro hfirst
    rw [List.getElem?_append_left hfirst, List.getElem?_eq_getElem hfirst, Option.map_some,
      Option.any_some]
    obtain ⟨hmem, honly⟩ := List.mem_filter.mp (List.getElem_mem hfirst)
    exact decide_eq_true ((hpath _ hmem).mpr honly)

theorem mem_groups_ne_nil {variant : CraftRecipeVariant} {group : Group}
    (h : group ∈ variant.groups) : group ≠ [] :=
  of_decide_eq_true (List.mem_filter.mp h).2

theorem requirements_one (variant : CraftRecipeVariant) :
    requirements variant 1 = sortedBy List.length variant.groups := by
  have hone : required variant 1 = variant.groups := by
    rw [required]
    exact List.flatMap_singleton' variant.groups
  rw [requirements, hone]

/-- **A recipe that is not nested has an inventory** that would do for one
craft and the code finds no way. -/
theorem exists_incomplete {variant : CraftRecipeVariant} (hfew : variant.groups.length ≤ 36)
    (h : ¬ Nested variant) : ∃ inv, ¬ Complete inv variant 1 := by
  have hsorted : ¬ (sortedBy List.length variant.groups).Pairwise Covers :=
    fun hpairwise => h (inOrder_of_sortedBy hpairwise)
  rw [List.pairwise_iff_getElem] at hsorted
  push Not at hsorted
  obtain ⟨i, j, hi, hj, hij, hcovers⟩ := hsorted
  rw [Covers] at hcovers
  push Not at hcovers
  obtain ⟨⟨a, ha, haj⟩, b, hb, hbj⟩ := hcovers
  rw [ne_eq, Bool.not_eq_true] at hbj
  have hab : a.path ≠ b.path := by
    intro heq
    rw [(accepts_of_path heq : Accepts _ a ↔ _).mp haj] at hbj
    cases hbj
  let groups := sortedBy List.length variant.groups
  have hnonempty : ∀ group ∈ groups, group ≠ [] := fun group hgroup =>
    mem_groups_ne_nil ((List.mem_insertionSort _).mp hgroup)
  have hlength : groups.length = variant.groups.length := List.length_insertionSort ..
  have hitems := length_itemsFor a b groups
  have hmany : (itemsFor a b groups).length ≤ 36 := by omega
  refine ⟨units (itemsFor a b groups), fun hcomplete => ?_⟩
  -- each group has an item of its own
  have hsuppliable : Suppliable (units (itemsFor a b groups)) variant 1 := by
    have haccepts : ∀ i (hi : i < (itemsFor a b groups).length)
        (hi' : i < (unitGroups a b groups).length),
        Accepts (unitGroups a b groups)[i] (itemsFor a b groups)[i] := by
      intro i hi hi'
      rw [List.getElem_map]
      exact accepts_unitFor (hnonempty _ ((perm_unitGroups a b groups).mem_iff.mp
        (List.getElem_mem _)))
    have hserves := serves_units (List.length_map _).symm hmany haccepts
    have hfeasible : Feasible (Gives (units (itemsFor a b groups)))
        (held (units (itemsFor a b groups))) (unitGroups a b groups) := ⟨_, hserves⟩
    rw [Suppliable, ← feasible_perm_iff (requirements_perm variant 1), requirements_one]
    exact hfeasible.perm (perm_unitGroups a b groups)
  have hfound := (allocation_isSome_iff ..).mp (hcomplete.found.mpr hsuppliable)
  obtain ⟨picks, hpicks⟩ := Option.isSome_iff_exists.mp hfound
  rw [requirements_one] at hpicks
  have hserves := greedy_serves hpicks
  have honly := first_iff_onlyFirst hab hnonempty (hlength.le.trans hfew) hserves
  have hpi : i < picks.length := hserves.length_eq ▸ hi
  have hpj : j < picks.length := hserves.length_eq ▸ hj
  have hzi : i < (groups.zip picks).length := by
    rw [List.length_zip]
    exact lt_min hi hpi
  have hzj : j < (groups.zip picks).length := by
    rw [List.length_zip]
    exact lt_min hj hpj
  -- the later group gets a first item, so the earlier one a slot in front of it
  have hlater := (honly _ (List.getElem_mem hzj)).mpr (by
    rw [List.getElem_zip, onlyFirst, haj, hbj]
    rfl)
  have hbefore := List.pairwise_iff_getElem.mp (pairwise_greedy (held_units_le hmany) hpicks)
    i j hzi hzj hij
  obtain ⟨n, hn, hpick, -⟩ :=
    (gives_units hmany).mp ((List.forall₂_iff_get.mp hserves.admitted).2 i hi hpi)
  obtain ⟨m, hm, hpick', -⟩ :=
    (gives_units hmany).mp ((List.forall₂_iff_get.mp hserves.admitted).2 j hj hpj)
  have hpicki : picks[i] = (n : Int) := hpick
  have hpickj : picks[j] = (m : Int) := hpick'
  simp only [List.getElem_zip, hpicki, hpickj] at hlater hbefore
  have hmitem : itemAt (itemsFor a b groups) m = some (itemsFor a b groups)[m] := by
    rw [itemAt, Int.toNat_natCast, List.getElem?_eq_getElem hm]
  have hle : n ≤ m := by
    refine Nat.cast_le.mp (hbefore ((gives_units hmany).mpr ⟨m, hm, rfl, ?_⟩))
    rw [hmitem, Option.any_some, decide_eq_true_eq] at hlater
    exact (accepts_of_path hlater).mpr (fits_iff.mpr ⟨a, ha, rfl⟩)
  have hearlier : (itemAt (itemsFor a b groups) n).any (fun item => item.path = a.path) = true :=
    (itemAt_first hab hnonempty).mpr (hle.trans_lt ((itemAt_first hab hnonempty).mp hlater))
  have hfirst := (honly _ (List.getElem_mem hzi)).mp (by
    rw [List.getElem_zip]
    simpa only [hpicki] using hearlier)
  rw [List.getElem_zip, onlyFirst, Bool.and_eq_true_iff, Bool.not_eq_true',
    show fits (some b) groups[i] = true from fits_iff.mpr ⟨b, hb, rfl⟩] at hfirst
  cases hfirst.2

/-- **The allocation is complete** for a recipe, whatever the inventory and
the number of crafts, if it is nested; and only then, where each group could
have a slot of its own. -/
theorem complete_iff_nested (variant : CraftRecipeVariant) :
    (Nested variant → ∀ inv crafts, Complete inv variant crafts) ∧
      (variant.groups.length ≤ 36 → (∀ inv crafts, Complete inv variant crafts) →
        Nested variant) := by
  refine ⟨fun h inv crafts => h.complete inv crafts, fun hfew hcomplete => ?_⟩
  by_contra h
  obtain ⟨inv, hinv⟩ := exists_incomplete hfew h
  exact hinv (hcomplete inv 1)

def oakPlanks : ItemName := ⟨true, "oak_planks", by decide, by decide⟩

def oakLog : ItemName := ⟨true, "oak_log", by decide, by decide⟩

def oakSlab : ItemName := ⟨true, "oak_slab", by decide, by decide⟩

/-- Planks and a log, for a place where either goes and one for planks or a
slab: the planks are spent on the first, and nothing is left for the second. -/
theorem planks_spent_first :
    ¬ Complete (units [oakPlanks, oakLog]) ⟨[some [oakPlanks, oakLog], some [oakPlanks, oakSlab]]⟩
      1 := by
  intro h
  have hserves : Suppliable (units [oakPlanks, oakLog])
      ⟨[some [oakPlanks, oakLog], some [oakPlanks, oakSlab]]⟩ 1 := by
    have hfeasible : Feasible (Gives (units [oakPlanks, oakLog])) (held (units [oakPlanks, oakLog]))
        [[oakPlanks, oakSlab], [oakPlanks, oakLog]] := by
      refine ⟨_, serves_units rfl (by decide) fun i hi _ => ?_⟩
      obtain rfl | rfl : i = 0 ∨ i = 1 := by
        rw [List.length_cons, List.length_singleton] at hi
        omega
      · exact fits_iff.mpr ⟨oakPlanks, List.mem_cons_self, rfl⟩
      · exact fits_iff.mpr ⟨oakLog, List.mem_cons_of_mem _ List.mem_cons_self, rfl⟩
    exact hfeasible.perm (.swap ..)
  have hnone : allocateRecipeInputs (units [oakPlanks, oakLog])
      ⟨[some [oakPlanks, oakLog], some [oakPlanks, oakSlab]]⟩ 1 = none := by decide +kernel
  have hfound := h.found.mpr hserves
  rw [hnone] at hfound
  cases hfound

end Craft

end MineBot
