import Mathlib

/-!
# Greedy matching

Requirements are to be met from stocks of bounded capacity, one unit each,
and each requirement admits some of the stocks. The greedy way takes any
stock that is admitted and not used up, requirement after requirement.

A choice can be exchanged for any other as long as what comes later admits
as much (`Feasible.take`): where each requirement is disjoint from a later one
or contained in it, the greedy way fails only if every way does.
-/

namespace MineBot

namespace Matching

variable {ρ σ : Type*} [DecidableEq σ] {admits : ρ → σ → Prop} {capacity : σ → Nat}

/-- The capacities after a unit of the stock is taken. -/
def take (capacity : σ → Nat) (s : σ) : σ → Nat := Function.update capacity s (capacity s - 1)

/-- The picks meet the requirements within the capacities. -/
structure Serves (admits : ρ → σ → Prop) (capacity : σ → Nat) (requirements : List ρ)
    (picks : List σ) : Prop where
  admitted : List.Forall₂ admits requirements picks
  within : ∀ s, picks.count s ≤ capacity s

/-- The requirements can be met at once. -/
def Feasible (admits : ρ → σ → Prop) (capacity : σ → Nat) (requirements : List ρ) : Prop :=
  ∃ picks, Serves admits capacity requirements picks

/-- The second admits all that the first does, if they share anything. -/
def Nests (admits : ρ → σ → Prop) (r r' : ρ) : Prop :=
  ∀ s, admits r s → admits r' s → ∀ t, admits r t → admits r' t

theorem take_self (s : σ) : take capacity s s = capacity s - 1 := Function.update_self ..

theorem take_of_ne {s t : σ} (h : t ≠ s) : take capacity s t = capacity t :=
  Function.update_of_ne h ..

omit [DecidableEq σ] in
theorem Nests.refl (r : ρ) : Nests admits r r := fun _ _ _ _ h => h

theorem Serves.length_eq {requirements : List ρ} {picks : List σ}
    (h : Serves admits capacity requirements picks) : requirements.length = picks.length :=
  h.admitted.length_eq

theorem Serves.nil : Serves admits capacity [] [] := ⟨.nil, fun _ => Nat.zero_le _⟩

omit [DecidableEq σ] in
theorem exists_admits {rs : List ρ} {ps : List σ} (h : List.Forall₂ admits rs ps) {s : σ}
    (hs : s ∈ ps) : ∃ r ∈ rs, admits r s := by
  induction h with
  | nil => cases hs
  | @cons r p rs ps hp _ ih =>
      rcases List.mem_cons.mp hs with rfl | hs
      · exact ⟨r, List.mem_cons_self, hp⟩
      · obtain ⟨r', hr', hadmits⟩ := ih hs
        exact ⟨r', List.mem_cons_of_mem _ hr', hadmits⟩

/-- A unit taken, and the others from what is left. -/
theorem Serves.cons {r : ρ} {rs : List ρ} {s : σ} {ps : List σ} (hs : admits r s)
    (hpos : 0 < capacity s) (h : Serves admits (take capacity s) rs ps) :
    Serves admits capacity (r :: rs) (s :: ps) := by
  refine ⟨.cons hs h.admitted, fun t => ?_⟩
  have hwithin := h.within t
  by_cases ht : t = s
  · subst ht
    rw [take_self] at hwithin
    rw [List.count_cons_self]
    omega
  · rw [take_of_ne ht] at hwithin
    rwa [List.count_cons_of_ne (Ne.symm ht)]

theorem Serves.tail {r : ρ} {rs : List ρ} {s : σ} {ps : List σ}
    (h : Serves admits capacity (r :: rs) (s :: ps)) : Serves admits (take capacity s) rs ps := by
  obtain ⟨-, hadmitted⟩ := List.forall₂_cons.mp h.admitted
  refine ⟨hadmitted, fun t => ?_⟩
  have hwithin := h.within t
  by_cases ht : t = s
  · subst ht
    rw [take_self]
    rw [List.count_cons_self] at hwithin
    omega
  · rw [take_of_ne ht]
    rwa [List.count_cons_of_ne (Ne.symm ht)] at hwithin

/-- Requirements in another order. -/
theorem Serves.perm {rs rs' : List ρ} {picks : List σ} (h : Serves admits capacity rs picks)
    (hperm : rs.Perm rs') : ∃ picks', picks'.Perm picks ∧ Serves admits capacity rs' picks' := by
  obtain ⟨picks', hadmitted, hpicks⟩ := List.perm_comp_forall₂ hperm.symm h.admitted
  refine ⟨picks', hpicks, hadmitted, fun s => ?_⟩
  rw [hpicks.count_eq]
  exact h.within s

theorem Feasible.perm {rs rs' : List ρ} (h : Feasible admits capacity rs) (hperm : rs.Perm rs') :
    Feasible admits capacity rs' := by
  obtain ⟨picks, hserves⟩ := h
  obtain ⟨picks', -, hserves'⟩ := hserves.perm hperm
  exact ⟨picks', hserves'⟩

theorem feasible_perm_iff {rs rs' : List ρ} (hperm : rs.Perm rs') :
    Feasible admits capacity rs ↔ Feasible admits capacity rs' :=
  ⟨fun h => h.perm hperm, fun h => h.perm hperm.symm⟩

/-- One use of a stock can be moved to another that every user of it may use. -/
theorem exists_replace {rs : List ρ} {ps : List σ} {s p : σ} (h : List.Forall₂ admits rs ps)
    (hmem : s ∈ ps) (hall : ∀ r ∈ rs, admits r s → admits r p) :
    ∃ ps', List.Forall₂ admits rs ps' ∧ (p :: ps).Perm (s :: ps') := by
  induction h with
  | nil => cases hmem
  | @cons r q rs ps hq hrest ih =>
      by_cases heq : q = s
      · subst heq
        exact ⟨p :: ps, .cons (hall r List.mem_cons_self hq) hrest, List.Perm.swap ..⟩
      · obtain ⟨ps', hps', hperm⟩ := ih ((List.mem_cons.mp hmem).resolve_left (Ne.symm heq))
          fun r' hr' => hall r' (List.mem_cons_of_mem _ hr')
        refine ⟨q :: ps', .cons hq hps', ?_⟩
        calc (p :: q :: ps).Perm (q :: p :: ps) := List.Perm.swap ..
          _ |>.Perm (q :: s :: ps') := hperm.cons q
          _ |>.Perm (s :: q :: ps') := List.Perm.swap ..

/-- **Any choice will do** for a requirement that nests in the later ones. -/
theorem Feasible.take {r : ρ} {rs : List ρ} {s : σ} (h : Feasible admits capacity (r :: rs))
    (hnests : ∀ r' ∈ rs, Nests admits r r') (hs : admits r s) (hpos : 0 < capacity s) :
    Feasible admits (take capacity s) rs := by
  obtain ⟨picks, hserves⟩ := h
  obtain _ | ⟨hp, hrest⟩ := hserves.admitted
  next p ps =>
  by_cases hmem : s ∈ p :: ps
  · by_cases heq : p = s
    · subst heq
      exact ⟨ps, hserves.tail⟩
    · obtain ⟨ps', hps', hperm⟩ := exists_replace hrest
        ((List.mem_cons.mp hmem).resolve_left (Ne.symm heq))
        fun r' hr' hs' => hnests r' hr' s hs hs' p hp
      refine ⟨ps', (?_ : Serves admits capacity (r :: rs) (s :: ps')).tail⟩
      refine ⟨.cons hs hps', fun t => ?_⟩
      rw [← hperm.count_eq]
      exact hserves.within t
  · refine ⟨ps, hrest, fun t => ?_⟩
    by_cases ht : t = s
    · subst ht
      rw [List.count_eq_zero_of_not_mem (fun h => hmem (List.mem_cons_of_mem _ h))]
      exact Nat.zero_le _
    · rw [take_of_ne ht]
      exact List.count_le_count_cons.trans (hserves.within t)

/-- Units taken from the stocks, down to what is left. -/
def Spent (capacity left : σ → Nat) (picks : List σ) : Prop :=
  ∀ s, left s + picks.count s = capacity s

theorem Spent.refl : Spent capacity capacity [] := fun _ => rfl

theorem Spent.append {left left' : σ → Nat} {picks picks' : List σ} (h : Spent capacity left picks)
    (h' : Spent left left' picks') : Spent capacity left' (picks ++ picks') := by
  intro s
  rw [List.count_append, ← h s, ← h' s]
  omega

/-- Of a stock that is left, a part is taken. -/
theorem Spent.replicate {left : σ → Nat} {s : σ} {n : Nat} (hn : n ≤ capacity s)
    (hself : left s = capacity s - n) (hother : ∀ t, t ≠ s → left t = capacity t) :
    Spent capacity left (List.replicate n s) := by
  intro t
  by_cases ht : t = s
  · subst ht
    rw [List.count_replicate_self, hself]
    exact Nat.sub_add_cancel hn
  · rw [List.count_replicate, hother t ht, if_neg (by simpa using Ne.symm ht), Nat.add_zero]

/-- Some requirements are met, and the others from what is left. -/
theorem Serves.append {rs rs' : List ρ} {left : σ → Nat} {picks picks' : List σ}
    (hadmitted : List.Forall₂ admits rs picks) (hspent : Spent capacity left picks)
    (h : Serves admits left rs' picks') : Serves admits capacity (rs ++ rs') (picks ++ picks') := by
  refine ⟨List.rel_append hadmitted h.admitted, fun s => ?_⟩
  rw [List.count_append, ← hspent s, Nat.add_comm]
  exact Nat.add_le_add_right (h.within s) _

/-- The units of one requirement taken all at once. -/
theorem Feasible.spend {r : ρ} {rs : List ρ} {left : σ → Nat} {picks : List σ} {n : Nat}
    (h : Feasible admits capacity (List.replicate n r ++ rs))
    (hnests : 0 < n → ∀ r' ∈ rs, Nests admits r r')
    (hadmits : ∀ s ∈ picks, admits r s) (hspent : Spent capacity left picks)
    (hn : picks.length ≤ n) :
    Feasible admits left (List.replicate (n - picks.length) r ++ rs) := by
  induction picks generalizing capacity n with
  | nil =>
      have hleft : left = capacity := funext fun s => hspent s
      rw [hleft]
      exact h
  | cons s picks ih =>
      obtain ⟨m, rfl⟩ : ∃ m, n = m + 1 := ⟨n - 1, by
        rw [List.length_cons] at hn
        omega⟩
      have hpos : 0 < capacity s := by
        have := hspent s
        rw [List.count_cons_self] at this
        omega
      have htake : Feasible admits (Matching.take capacity s) (List.replicate m r ++ rs) := by
        rw [List.replicate_succ, List.cons_append] at h
        refine h.take (fun r' hr' => ?_) (hadmits s List.mem_cons_self) hpos
        rcases List.mem_append.mp hr' with hr' | hr'
        · rw [List.eq_of_mem_replicate hr']
          exact .refl r
        · exact hnests (Nat.succ_pos m) r' hr'
      have hrest : Spent (Matching.take capacity s) left picks := by
        intro t
        have := hspent t
        by_cases ht : t = s
        · subst ht
          rw [take_self]
          rw [List.count_cons_self] at this
          omega
        · rw [take_of_ne ht]
          rwa [List.count_cons_of_ne (Ne.symm ht)] at this
      have hlength : m + 1 - (s :: picks).length = m - picks.length := by
        rw [List.length_cons]
        omega
      rw [hlength]
      exact ih htake (fun _ => hnests (Nat.succ_pos m)) (fun t ht => hadmits t (List.mem_cons_of_mem _ ht)) hrest
        (Nat.le_of_succ_le_succ hn)

/-! ## Stocks of one kind -/

section Kinds

variable {κ : Type*} [DecidableEq κ] (stocks : List σ) (kind : σ → Option κ)

/-- What the stocks of a kind hold together. -/
def total (capacity : σ → Nat) (k : κ) : Nat :=
  ((stocks.filter fun s => kind s = some k).map capacity).sum

variable {stocks kind}

theorem total_take (hnodup : stocks.Nodup) {s : σ} (hmem : s ∈ stocks) (hpos : 0 < capacity s)
    (k : κ) : total stocks kind (take capacity s) k + (if kind s = some k then 1 else 0) =
      total stocks kind capacity k := by
  have hothers : ∀ l : List σ, s ∉ l → l.map (take capacity s) = l.map capacity := by
    intro l hl
    exact List.map_congr_left fun t ht => take_of_ne fun h => hl (h ▸ ht)
  induction stocks with
  | nil => cases hmem
  | cons t stocks ih =>
      obtain ⟨ht, hnodup⟩ := List.nodup_cons.mp hnodup
      simp only [total, List.filter_cons]
      by_cases heq : t = s
      · subst heq
        have hrest := hothers (stocks.filter fun s => kind s = some k)
          fun h => ht (List.mem_of_mem_filter h)
        by_cases hk : kind t = some k
        · simp only [hk, decide_true, if_true, List.map_cons, List.sum_cons, hrest, take_self]
          omega
        · simp only [hk, decide_false, if_false, hrest, Bool.false_eq_true, Nat.add_zero]
      · have hrest := ih hnodup ((List.mem_cons.mp hmem).resolve_left (Ne.symm heq))
        simp only [total] at hrest
        by_cases hk : kind t = some k
        · simp only [hk, decide_true, if_true, List.map_cons, List.sum_cons, take_of_ne heq]
          omega
        · simp only [hk, decide_false, Bool.false_eq_true, if_false]
          exact hrest

/-- A unit of a stock is one of its kind. -/
theorem total_take_eq (hnodup : stocks.Nodup) {s : σ} (hmem : s ∈ stocks) (hpos : 0 < capacity s)
    {k : κ} (hk : kind s = some k) :
    0 < total stocks kind capacity k ∧
      total stocks kind (take capacity s) = take (total stocks kind capacity) k := by
  have htotal : ∀ k, total stocks kind (take capacity s) k + (if kind s = some k then 1 else 0) =
      total stocks kind capacity k := total_take hnodup hmem hpos
  constructor
  · have := htotal k
    rw [if_pos hk] at this
    omega
  · funext k'
    have hk' := htotal k'
    by_cases heq : k' = k
    · subst heq
      rw [if_pos hk] at hk'
      rw [take_self]
      omega
    · rw [if_neg (by rw [hk, Option.some.injEq]; exact Ne.symm heq)] at hk'
      rw [take_of_ne heq, ← hk', Nat.add_zero]

omit [DecidableEq σ] in
theorem exists_of_total_pos {k : κ} (h : 0 < total stocks kind capacity k) :
    ∃ s ∈ stocks, kind s = some k ∧ 0 < capacity s := by
  by_contra hnone
  push Not at hnone
  refine absurd (List.sum_eq_zero fun n hn => ?_) h.ne'
  obtain ⟨s, hs, rfl⟩ := List.mem_map.mp hn
  obtain ⟨hs, hk⟩ := List.mem_filter.mp hs
  exact Nat.le_zero.mp (hnone s hs (of_decide_eq_true hk))

/-- **Requirements that look at the kind alone** are met by the stocks just as
they are by the kinds. -/
theorem feasible_total_iff {accepts : ρ → κ → Prop} (hnodup : stocks.Nodup)
    (hadmits : ∀ r s, admits r s ↔ s ∈ stocks ∧ ∃ k, kind s = some k ∧ accepts r k)
    (requirements : List ρ) :
    Feasible admits capacity requirements ↔
      Feasible accepts (total stocks kind capacity) requirements := by
  constructor
  · rintro ⟨picks, hserves⟩
    induction requirements generalizing capacity picks with
    | nil => exact ⟨[], .nil⟩
    | cons r rs ih =>
        obtain _ | ⟨hs, -⟩ := hserves.admitted
        next s ps =>
        obtain ⟨hmem, k, hk, haccepts⟩ := (hadmits r s).mp hs
        have hpos : 0 < capacity s := List.count_pos_iff.mpr List.mem_cons_self |>.trans_le
          (hserves.within s)
        obtain ⟨htotal, htake⟩ := total_take_eq hnodup hmem hpos hk
        obtain ⟨ks, hks⟩ := ih ps hserves.tail
        rw [htake] at hks
        exact ⟨k :: ks, .cons haccepts htotal hks⟩
  · rintro ⟨ks, hserves⟩
    induction requirements generalizing capacity ks with
    | nil => exact ⟨[], .nil⟩
    | cons r rs ih =>
        obtain _ | ⟨haccepts, -⟩ := hserves.admitted
        next k ks =>
        have htotal : 0 < total stocks kind capacity k :=
          List.count_pos_iff.mpr List.mem_cons_self |>.trans_le (hserves.within k)
        obtain ⟨s, hmem, hk, hpos⟩ := exists_of_total_pos htotal
        have htail := hserves.tail
        rw [← (total_take_eq hnodup hmem hpos hk).2] at htail
        obtain ⟨ps, hps⟩ := ih ks htail
        exact ⟨s :: ps, .cons ((hadmits r s).mpr ⟨hmem, k, hk, haccepts⟩) hpos hps⟩

end Kinds

/-! ## The greedy way -/

/-- A way to choose an admitted stock that is not used up, if there is one. -/
structure Choice (admits : ρ → σ → Prop) where
  choose : (σ → Nat) → ρ → Option σ
  sound : ∀ {capacity r s}, choose capacity r = some s → admits r s ∧ 0 < capacity s
  complete : ∀ {capacity r}, choose capacity r = none → ∀ s, admits r s → capacity s = 0

/-- Stocks for the requirements in turn. -/
def greedy (choice : Choice admits) : (σ → Nat) → List ρ → Option (List σ)
  | _, [] => some []
  | capacity, r :: rs =>
      (choice.choose capacity r).bind fun s =>
        (greedy choice (take capacity s) rs).map (s :: ·)

theorem greedy_cons_eq_some {choice : Choice admits} {r : ρ} {rs : List ρ} {picks : List σ}
    (h : greedy choice capacity (r :: rs) = some picks) :
    ∃ s ps, choice.choose capacity r = some s ∧ greedy choice (take capacity s) rs = some ps ∧
      picks = s :: ps := by
  obtain ⟨s, hs, h⟩ := Option.bind_eq_some_iff.mp h
  obtain ⟨ps, hps, rfl⟩ := Option.map_eq_some_iff.mp h
  exact ⟨s, ps, hs, hps, rfl⟩

theorem greedy_serves {choice : Choice admits} {rs : List ρ} {picks : List σ}
    (h : greedy choice capacity rs = some picks) : Serves admits capacity rs picks := by
  induction rs generalizing capacity picks with
  | nil =>
      cases h
      exact .nil
  | cons r rs ih =>
      obtain ⟨s, ps, hs, hps, rfl⟩ := greedy_cons_eq_some h
      obtain ⟨hadmits, hpos⟩ := choice.sound hs
      exact .cons hadmits hpos (ih hps)

/-- **The greedy way finds a way if there is one**, for requirements that
nest in the later ones. -/
theorem greedy_isSome_iff (choice : Choice admits) {rs : List ρ}
    (hnests : rs.Pairwise (Nests admits)) :
    (greedy choice capacity rs).isSome ↔ Feasible admits capacity rs := by
  constructor
  · intro h
    obtain ⟨picks, hpicks⟩ := Option.isSome_iff_exists.mp h
    exact ⟨picks, greedy_serves hpicks⟩
  · intro h
    induction rs generalizing capacity with
    | nil => rfl
    | cons r rs ih =>
        obtain ⟨hfirst, hrest⟩ := List.pairwise_cons.mp hnests
        cases hs : choice.choose capacity r with
        | none =>
            -- a stock that some way uses is not used up
            obtain ⟨picks, hserves⟩ := h
            obtain _ | ⟨hp, -⟩ := hserves.admitted
            next p ps =>
            have hzero := choice.complete hs p hp
            have hwithin := hserves.within p
            rw [hzero, List.count_cons_self] at hwithin
            omega
        | some s =>
            obtain ⟨hadmits, hpos⟩ := choice.sound hs
            have htail := ih hrest (h.take hfirst hadmits hpos)
            rw [greedy, hs, Option.bind_some, Option.isSome_map]
            exact htail

end Matching

end MineBot
