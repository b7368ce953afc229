import Mathlib

/-!
# Tables of records

A table as the list of its rows, in insertion order, with a key that no
two rows share. `updateWhere` is `UPDATE ... SET ... WHERE ...`; it keeps
the rows' places, so a table is followed row by row through any number
of updates.
-/

namespace MineBot

namespace Table

variable {α κ : Type*}

/-- `UPDATE ... SET f WHERE p`. -/
def updateWhere (p : α → Bool) (f : α → α) (rows : List α) : List α :=
  rows.map fun r => if p r then f r else r

/-- No two rows share a key. -/
def Keyed (key : α → κ) (rows : List α) : Prop := (rows.map key).Nodup

instance [DecidableEq κ] (key : α → κ) (rows : List α) : Decidable (Keyed key rows) :=
  inferInstanceAs (Decidable (rows.map key).Nodup)

section

variable {key : α → κ} {p : α → Bool} {f : α → α} {rows rows' : List α} {r r' : α}

theorem mem_updateWhere :
    r' ∈ updateWhere p f rows ↔ ∃ r ∈ rows, (if p r then f r else r) = r' :=
  List.mem_map

theorem map_key_updateWhere (hkey : ∀ r, key (f r) = key r) :
    (updateWhere p f rows).map key = rows.map key := by
  rw [updateWhere, List.map_map]
  refine List.map_congr_left fun r _ => ?_
  simp only [Function.comp_apply]
  split
  · exact hkey r
  · rfl

theorem Keyed.unique (h : Keyed key rows) (hr : r ∈ rows) (hr' : r' ∈ rows)
    (hkey : key r = key r') : r = r' :=
  List.inj_on_of_nodup_map h hr hr' hkey

theorem Keyed.append_singleton (h : Keyed key rows) (hnew : ∀ r' ∈ rows, key r' ≠ key r) :
    Keyed key (rows ++ [r]) := by
  rw [Keyed, List.map_append, List.nodup_append]
  refine ⟨h, List.nodup_singleton _, ?_⟩
  intro k hk l hl hkl
  obtain ⟨r', hr', rfl⟩ := List.mem_map.mp hk
  obtain rfl : l = key r := List.mem_singleton.mp hl
  exact hnew r' hr' hkl

/-- An update that meets no row. -/
theorem updateWhere_none (hp : ∀ r ∈ rows, p r = false) : updateWhere p f rows = rows := by
  refine (List.map_congr_left fun r hr => ?_).trans (List.map_id _)
  rw [hp r hr]
  rfl

/-- Rows a condition does not touch stay where they are. -/
theorem mem_updateWhere_of_not (hr : r ∈ rows) (hp : p r = false) :
    r ∈ updateWhere p f rows :=
  mem_updateWhere.mpr ⟨r, hr, by simp [hp]⟩

theorem mem_updateWhere_of (hr : r ∈ rows) (hp : p r = true) :
    f r ∈ updateWhere p f rows :=
  mem_updateWhere.mpr ⟨r, hr, by simp [hp]⟩

/-- An update by a row's key writes that row and no other. -/
theorem Keyed.updateWhere_congr (h : Keyed key rows) (hr : r ∈ rows) {q : α → Bool}
    (hp : ∀ x, p x = true → key x = key r) (hq : ∀ x, q x = true → key x = key r)
    (hpq : p r = q r) : updateWhere p f rows = updateWhere q f rows := by
  refine List.map_congr_left fun x hx => ?_
  by_cases hkey : key x = key r
  · rw [h.unique hx hr hkey, hpq]
  · have hpx : p x = false := Bool.eq_false_iff.mpr fun hx => hkey (hp x hx)
    have hqx : q x = false := Bool.eq_false_iff.mpr fun hx => hkey (hq x hx)
    rw [hpx, hqx]

theorem Keyed.countP_eq_one (h : Keyed key rows) (hr : r ∈ rows)
    (hp : ∀ x, p x = true → key x = key r) (hpr : p r = true) : rows.countP p = 1 := by
  have hfilter : rows.filter p = [r] := by
    have hnodup : (rows.filter p).Nodup := (List.Nodup.of_map key h).filter p
    have hmem : ∀ x, x ∈ rows.filter p ↔ x = r := fun x => by
      rw [List.mem_filter]
      constructor
      · rintro ⟨hx, hpx⟩
        exact h.unique hx hr (hp x hpx)
      · rintro rfl
        exact ⟨hr, hpr⟩
    exact (List.perm_ext_iff_of_nodup hnodup (List.nodup_singleton r)).mpr
      (fun x => by rw [hmem, List.mem_singleton]) |>.eq_singleton
  rw [List.countP_eq_length_filter, hfilter, List.length_singleton]

theorem Keyed.length_filter_le_one [DecidableEq κ] (h : Keyed key rows) (k : κ) :
    (rows.filter fun r => key r = k).length ≤ 1 := by
  rw [← List.countP_eq_length_filter]
  have hcount := List.nodup_iff_count_le_one.mp h k
  rw [List.count, List.countP_map] at hcount
  refine le_trans (le_of_eq (List.countP_congr fun r _ => ?_)) hcount
  simp

/-- What an update of one row does to a sum over the rows. -/
theorem Keyed.sum_updateWhere (h : Keyed key rows) (hr : r ∈ rows)
    (hp : ∀ x, p x = true → key x = key r) (hpr : p r = true) (v : α → Int) :
    ((updateWhere p f rows).map v).sum = (rows.map v).sum - v r + v (f r) := by
  induction rows with
  | nil => cases hr
  | cons x rows ih =>
      obtain ⟨hx, htail⟩ := List.nodup_cons.mp h
      have hcons : updateWhere p f (x :: rows)
          = (if p x then f x else x) :: updateWhere p f rows := rfl
      rw [hcons, List.map_cons, List.sum_cons, List.map_cons, List.sum_cons]
      rcases List.mem_cons.mp hr with rfl | hr
      · have hrest : updateWhere p f rows = rows := updateWhere_none fun y hy =>
          Bool.eq_false_iff.mpr fun hpy => hx (hp y hpy ▸ List.mem_map_of_mem hy)
        rw [hrest, if_pos hpr]
        omega
      · have hpx : p x = false := Bool.eq_false_iff.mpr fun hpx =>
          hx (hp x hpx ▸ List.mem_map_of_mem hr)
        rw [ih htail hr, hpx]
        simp only [Bool.false_eq_true, if_false]
        omega

/-- A row is found by any condition that implies its key. -/
theorem Keyed.find?_eq_some (h : Keyed key rows) (hr : r ∈ rows) (hpr : p r = true)
    (hp : ∀ x, p x = true → key x = key r) : rows.find? p = some r := by
  cases hfind : rows.find? p with
  | none => exact absurd hpr (List.find?_eq_none.mp hfind r hr)
  | some x =>
      rw [h.unique (List.mem_of_find?_eq_some hfind) hr (hp x (List.find?_some hfind))]

end

/-! ## Two tables side by side -/

section

variable {β γ : Type*} {S : α → β → Prop} {xs : List α} {ys : List β}
variable {p : α → Bool} {q : β → Bool}

theorem paired_of_mem_left (h : List.Forall₂ S xs ys) {x : α} (hx : x ∈ xs) :
    ∃ y ∈ ys, S x y := by
  induction h with
  | nil => cases hx
  | cons hxy _ ih =>
      rcases List.mem_cons.mp hx with rfl | hx
      · exact ⟨_, List.mem_cons_self, hxy⟩
      · obtain ⟨y, hy, hxy'⟩ := ih hx
        exact ⟨y, List.mem_cons_of_mem _ hy, hxy'⟩

theorem paired_of_mem_right (h : List.Forall₂ S xs ys) {y : β} (hy : y ∈ ys) :
    ∃ x ∈ xs, S x y := by
  induction h with
  | nil => cases hy
  | cons hxy _ ih =>
      rcases List.mem_cons.mp hy with rfl | hy
      · exact ⟨_, List.mem_cons_self, hxy⟩
      · obtain ⟨x, hx, hxy'⟩ := ih hy
        exact ⟨x, List.mem_cons_of_mem _ hx, hxy'⟩

theorem paired_mono {S' : α → β → Prop} (h : List.Forall₂ S xs ys)
    (himp : ∀ x ∈ xs, ∀ y, S x y → S' x y) : List.Forall₂ S' xs ys := by
  induction h with
  | nil => exact .nil
  | cons hxy _ ih =>
      exact .cons (himp _ List.mem_cons_self _ hxy)
        (ih fun x hx => himp x (List.mem_cons_of_mem _ hx))

/-- An update of both sides that keeps the rows related. -/
theorem paired_updateWhere {f : α → α} {g : β → β} (h : List.Forall₂ S xs ys)
    (hpq : ∀ x ∈ xs, ∀ y ∈ ys, S x y → p x = q y)
    (hfg : ∀ x ∈ xs, ∀ y ∈ ys, S x y → q y = true → S (f x) (g y)) :
    List.Forall₂ S (updateWhere p f xs) (updateWhere q g ys) := by
  induction h with
  | nil => exact .nil
  | @cons x y xs ys hxy _ ih =>
      refine .cons ?_ (ih
        (fun x hx y hy => hpq x (List.mem_cons_of_mem _ hx) y (List.mem_cons_of_mem _ hy))
        (fun x hx y hy => hfg x (List.mem_cons_of_mem _ hx) y (List.mem_cons_of_mem _ hy)))
      dsimp only
      rw [hpq x List.mem_cons_self y List.mem_cons_self hxy]
      split
      · next hq => exact hfg x List.mem_cons_self y List.mem_cons_self hxy hq
      · exact hxy

/-- An update of one side alone. -/
theorem paired_updateWhere_right {g : β → β} (h : List.Forall₂ S xs ys)
    (hg : ∀ x y, S x y → S x (g y)) : List.Forall₂ S xs (updateWhere q g ys) := by
  induction h with
  | nil => exact .nil
  | cons hxy _ ih =>
      refine .cons ?_ ih
      dsimp only
      split
      · exact hg _ _ hxy
      · exact hxy

theorem paired_filter (h : List.Forall₂ S xs ys) (hpq : ∀ x y, S x y → p x = q y) :
    List.Forall₂ S (xs.filter p) (ys.filter q) := by
  induction h with
  | nil => exact .nil
  | @cons x y xs ys hxy _ ih =>
      rw [List.filter_cons, List.filter_cons, hpq x y hxy]
      split
      · exact .cons hxy ih
      · exact ih

theorem paired_countP (h : List.Forall₂ S xs ys) (hpq : ∀ x y, S x y → p x = q y) :
    xs.countP p = ys.countP q := by
  rw [List.countP_eq_length_filter, List.countP_eq_length_filter,
    (paired_filter h hpq).length_eq]

theorem paired_find? (h : List.Forall₂ S xs ys) (hpq : ∀ x y, S x y → p x = q y) :
    Option.Rel S (xs.find? p) (ys.find? q) := by
  induction h with
  | nil => exact .none
  | @cons x y xs ys hxy _ ih =>
      rw [List.find?_cons, List.find?_cons, hpq x y hxy]
      cases q y with
      | true => exact .some hxy
      | false => exact ih

theorem paired_argmin [LinearOrder γ] {f : α → γ} {g : β → γ} (h : List.Forall₂ S xs ys)
    (hfg : ∀ x y, S x y → f x = g y) : Option.Rel S (xs.argmin f) (ys.argmin g) := by
  induction h with
  | nil => exact .none
  | @cons x y xs ys hxy _ ih =>
      rw [List.argmin_cons, List.argmin_cons]
      generalize xs.argmin f = a at ih ⊢
      generalize ys.argmin g = b at ih ⊢
      cases ih with
      | none => exact .some hxy
      | some hab =>
          dsimp only
          rw [hfg _ _ hab, hfg _ _ hxy]
          split
          · exact .some hab
          · exact .some hxy

end

end Table

end MineBot
