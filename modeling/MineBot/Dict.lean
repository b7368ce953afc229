import Mathlib

/-!
# Insertion-ordered dictionaries

A dictionary as the list of its entries, oldest key first: assigning to
a key that is present keeps the key's position, assigning to a new key
appends it. Lookup takes the first entry for a key, so the laws below
hold whether or not the list happens to repeat one; `set` never
introduces a repetition.
-/

namespace MineBot

/-- A dictionary: its entries in insertion order. -/
abbrev Dict (κ ν : Type*) := List (κ × ν)

namespace Dict

variable {κ ν : Type*} [DecidableEq κ]

/-- `d.get(k)`, absent keys being `none`. -/
def get? : Dict κ ν → κ → Option ν
  | [], _ => none
  | (l, w) :: d, k => if l = k then some w else get? d k

/-- `d[k] = v`. -/
def set : Dict κ ν → κ → ν → Dict κ ν
  | [], k, v => [(k, v)]
  | (l, w) :: d, k, v => if l = k then (l, v) :: d else (l, w) :: set d k v

/-- `d.pop(k, None)`. -/
def pop (d : Dict κ ν) (k : κ) : Dict κ ν := d.filter fun e => e.1 ≠ k

/-- `{**d, **e}`: the entries of `e` assigned over `d`, in order. -/
def update (d e : Dict κ ν) : Dict κ ν :=
  e.foldl (fun d kv => d.set kv.1 kv.2) d

@[simp] theorem get?_nil (k : κ) : get? ([] : Dict κ ν) k = none := rfl

theorem get?_cons (l k : κ) (w : ν) (d : Dict κ ν) :
    get? ((l, w) :: d) k = if l = k then some w else get? d k := rfl

@[simp] theorem get?_set_self (d : Dict κ ν) (k : κ) (v : ν) :
    (d.set k v).get? k = some v := by
  induction d with
  | nil => simp [set, get?]
  | cons e d ih =>
      obtain ⟨l, w⟩ := e
      by_cases h : l = k <;> simp [set, get?, h, ih]

theorem get?_set_of_ne (d : Dict κ ν) {k l : κ} (h : l ≠ k) (v : ν) :
    (d.set k v).get? l = d.get? l := by
  induction d with
  | nil => simp [set, get?, Ne.symm h]
  | cons e d ih =>
      obtain ⟨m, w⟩ := e
      by_cases hk : m = k
      · subst hk; simp [set, get?, Ne.symm h]
      · by_cases hl : m = l
        · subst hl; simp [set, get?, hk]
        · simp [set, get?, hk, hl, ih]

theorem get?_set (d : Dict κ ν) (k l : κ) (v : ν) :
    (d.set k v).get? l = if l = k then some v else d.get? l := by
  split
  · next h => rw [h, get?_set_self]
  · next h => exact get?_set_of_ne d h v

theorem set_set (d : Dict κ ν) (k : κ) (v w : ν) : (d.set k v).set k w = d.set k w := by
  induction d with
  | nil => simp [set]
  | cons e d ih =>
      obtain ⟨l, u⟩ := e
      by_cases h : l = k <;> simp [set, h, ih]

@[simp] theorem update_nil (d : Dict κ ν) : d.update [] = d := rfl

@[simp] theorem update_cons (d e : Dict κ ν) (k : κ) (v : ν) :
    d.update ((k, v) :: e) = (d.set k v).update e := rfl

/-- A key that `e` does not assign keeps its value. -/
theorem get?_update_of_get?_none (d e : Dict κ ν) {k : κ} (h : e.get? k = none) :
    (d.update e).get? k = d.get? k := by
  induction e generalizing d with
  | nil => rfl
  | cons kv e ih =>
      obtain ⟨l, w⟩ := kv
      rw [get?_cons] at h
      split at h
      · cases h
      · next hl => rw [update_cons, ih _ h, get?_set_of_ne d (Ne.symm hl)]

theorem mem_iff_get? {d : Dict κ ν} (hkeys : (d.map Prod.fst).Nodup) {k : κ} {v : ν} :
    (k, v) ∈ d ↔ d.get? k = some v := by
  induction d with
  | nil => simp
  | cons e d ih =>
      obtain ⟨l, w⟩ := e
      obtain ⟨hl, hd⟩ := List.nodup_cons.mp hkeys
      rw [List.mem_cons, Dict.get?_cons, ih hd]
      by_cases heq : l = k
      · subst heq
        rw [if_pos rfl]
        constructor
        · rintro (h | h)
          · rw [(Prod.mk.inj h).2]
          · exact absurd (List.mem_map_of_mem ((ih hd).mpr h)) hl
        · intro h
          exact .inl (by rw [Option.some.inj h])
      · rw [if_neg heq]
        constructor
        · rintro (h | h)
          · exact absurd (Prod.mk.inj h).1.symm heq
          · exact h
        · exact .inr

theorem keys_set (d : Dict κ ν) (k : κ) (v : ν) :
    (d.set k v).map Prod.fst =
      if k ∈ d.map Prod.fst then d.map Prod.fst else d.map Prod.fst ++ [k] := by
  induction d with
  | nil => rfl
  | cons e d ih =>
      obtain ⟨l, w⟩ := e
      rw [Dict.set]
      by_cases h : l = k
      · simp [h]
      · rw [if_neg h, List.map_cons, ih]
        by_cases hmem : k ∈ d.map Prod.fst
        · simp only [hmem, if_true, List.map_cons, List.mem_cons, or_true]
        · simp only [hmem, if_false, List.map_cons, List.mem_cons, Ne.symm h, or_self,
            List.cons_append]

theorem nodup_set {d : Dict κ ν} (hkeys : (d.map Prod.fst).Nodup) (k : κ) (v : ν) :
    ((d.set k v).map Prod.fst).Nodup := by
  rw [keys_set]
  split
  · exact hkeys
  · next hk =>
      rw [← List.concat_eq_append]
      exact List.Nodup.concat hk hkeys

/-- A key the dictionary lacks is set at its end. -/
theorem set_of_get?_none {d : Dict κ ν} {k : κ} {v : ν} (h : d.get? k = none) :
    d.set k v = d ++ [(k, v)] := by
  induction d with
  | nil => rfl
  | cons e d ih =>
      obtain ⟨l, u⟩ := e
      rw [get?_cons] at h
      split at h
      · cases h
      · next hne => rw [set, if_neg hne, ih h, List.cons_append]

theorem pop_set (d : Dict κ ν) (k : κ) (v : ν) : (d.set k v).pop k = d.pop k := by
  induction d with
  | nil => simp [set, pop]
  | cons e d ih =>
      obtain ⟨l, w⟩ := e
      by_cases h : l = k
      · simp [set, pop, h]
      · simpa [set, pop, h] using ih

theorem countP_set {d : Dict κ ν} {k : κ} {old : ν} (new : ν) (p : κ × ν → Bool)
    (hold : d.get? k = some old) :
    (d.set k new).countP p + (p (k, old)).toNat = d.countP p + (p (k, new)).toNat := by
  induction d with
  | nil => cases hold
  | cons e d ih =>
      obtain ⟨l, w⟩ := e
      rw [get?_cons] at hold
      by_cases hl : l = k
      · subst hl
        rw [if_pos rfl] at hold
        obtain rfl := Option.some.inj hold
        simp only [set, if_true, List.countP_cons]
        cases p (l, w) <;> cases p (l, new) <;> simp
      · rw [if_neg hl] at hold
        have hrest := ih hold
        simp only [set, if_neg hl, List.countP_cons]
        omega

theorem mem_of_get? {d : Dict κ ν} {k : κ} {v : ν} (h : d.get? k = some v) : (k, v) ∈ d := by
  induction d with
  | nil => cases h
  | cons e d ih =>
      obtain ⟨l, w⟩ := e
      rw [get?_cons] at h
      split at h
      · next hl =>
          subst hl
          rw [Option.some.inj h]
          exact List.mem_cons_self
      · exact List.mem_cons_of_mem _ (ih h)

theorem mem_of_mem_set {d : Dict κ ν} {k : κ} {v : ν} {e : κ × ν} (h : e ∈ d.set k v) :
    e = (k, v) ∨ e ∈ d := by
  induction d with
  | nil => exact .inl (List.mem_singleton.mp h)
  | cons kv d ih =>
      simp only [set] at h
      split at h
      · next hl =>
          subst hl
          rcases List.mem_cons.mp h with h | h
          · exact .inl h
          · exact .inr (List.mem_cons_of_mem _ h)
      · rcases List.mem_cons.mp h with rfl | h
        · exact .inr List.mem_cons_self
        · exact (ih h).imp id (List.mem_cons_of_mem _)

/-- Of the old entries, those with another key stay. -/
theorem mem_set_cases {d : Dict κ ν} (hkeys : (d.map Prod.fst).Nodup) {k : κ} {v : ν} {e : κ × ν}
    (h : e ∈ d.set k v) : e = (k, v) ∨ e ∈ d ∧ e.1 ≠ k := by
  have hget : (d.set k v).get? e.1 = some e.2 := (mem_iff_get? (nodup_set hkeys k v)).mp h
  rw [get?_set] at hget
  split at hget
  · next hk => exact .inl (Prod.ext hk (Option.some.inj hget).symm)
  · next hk => exact .inr ⟨(mem_iff_get? hkeys).mpr hget, hk⟩

theorem get?_eq_none {d : Dict κ ν} {k : κ} (h : k ∉ d.map Prod.fst) : d.get? k = none := by
  induction d with
  | nil => rfl
  | cons e d ih =>
      obtain ⟨l, w⟩ := e
      rw [List.map_cons, List.mem_cons, not_or] at h
      rw [get?_cons, if_neg (Ne.symm h.1), ih h.2]

theorem get?_pop (d : Dict κ ν) (k l : κ) :
    (d.pop k).get? l = if l = k then none else d.get? l := by
  induction d with
  | nil => simp [pop]
  | cons e d ih =>
      obtain ⟨m, w⟩ := e
      simp only [pop] at ih
      by_cases hm : m = k
      · subst hm
        simp only [pop, List.filter_cons, ne_eq, not_true_eq_false, decide_false,
          Bool.false_eq_true, if_false, ih, get?_cons]
        by_cases hl : l = m
        · simp [hl]
        · simp [hl, Ne.symm hl]
      · simp only [pop, List.filter_cons, ne_eq, hm, not_false_eq_true, decide_true, if_true,
          get?_cons, ih]
        by_cases hl : l = k
        · simp [hl, hm]
        · simp [hl]

theorem get?_foldl_pop (keys : List κ) (d : Dict κ ν) (l : κ) :
    (keys.foldl pop d).get? l = if l ∈ keys then none else d.get? l := by
  induction keys generalizing d with
  | nil => simp
  | cons k keys ih =>
      rw [List.foldl_cons, ih, get?_pop]
      by_cases h : l ∈ keys <;> by_cases h' : l = k <;> simp [h, h']

/-- Updating takes what the second dictionary has, and the rest from the
first. -/
theorem get?_update {e : Dict κ ν} (hkeys : (e.map Prod.fst).Nodup) (d : Dict κ ν) (k : κ) :
    (d.update e).get? k = (e.get? k).or (d.get? k) := by
  induction e generalizing d with
  | nil => rfl
  | cons kv e ih =>
      obtain ⟨l, w⟩ := kv
      obtain ⟨hl, he⟩ := List.nodup_cons.mp hkeys
      rw [update_cons, ih he, get?_cons, get?_set]
      by_cases h : l = k
      · subst h
        rw [get?_eq_none hl, if_pos rfl, if_pos rfl]
        rfl
      · rw [if_neg (Ne.symm h), if_neg h]

theorem nodup_update {d : Dict κ ν} (hkeys : (d.map Prod.fst).Nodup) (e : Dict κ ν) :
    ((d.update e).map Prod.fst).Nodup := by
  induction e generalizing d with
  | nil => exact hkeys
  | cons kv e ih => exact ih (nodup_set hkeys kv.1 kv.2)

end Dict

end MineBot
