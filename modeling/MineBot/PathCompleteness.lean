import Mathlib
import MineBot.PathAgreement
import MineBot.FrontierSearch

/-!
# What the search rules out

The search pops states in an order of its own, drops what it has met more
cheaply and keeps partial candidates on the side. None of this loses a state:
when the loop ends with expansions to spare, what it has reached is what the
offers of `_candidate_for` lead to, so a search that then reports no path has
ruled out every goal state.

`SearchOffers` is one offer; `SearchGrows` is what a part of the loop over the neighbours
does to the search; `FrontierSearch.Covers` carries the loop of `plan`.
-/

namespace MineBot

section Completeness

variable {γ κ : Type} (world : GridWorld) (legality : Legality γ) (num : CostNumbers κ)
  (context : BreakContext) (ok : γ → Prop)

/-- The answers of governance do not depend on what it has been asked. -/
structure Legality.Settled : Prop extends legality.Keeps ok where
  canBreak_eq : ∀ {pos blockType context g g'}, ok g → ok g' →
    (legality.canBreak pos blockType context g).1 = (legality.canBreak pos blockType context g').1
  canPlace_eq : ∀ {pos blockType context g g'}, ok g → ok g' →
    (legality.canPlace pos blockType context g).1 = (legality.canPlace pos blockType context g').1

/-- The decision on a neighbouring cell, and the governance it leaves. -/
def decisionOn (s : SearchState) (pos : Position) (cell : GridCell) (g : γ) :
    CostDecision κ × γ :=
  let (candidate, g) := candidateFor world s.overlay legality num context s.pos pos cell g
  evaluate legality num candidate g

/-- Where a decision on a neighbouring cell leads. -/
def leadsTo (s : SearchState) (pos : Position) (cell : GridCell) (decision : CostDecision κ) :
    SearchState :=
  nextStateAfterDecision s pos (overlayAfterDecision s.overlay decision cell) decision

/-- One step of the search through a neighbouring cell that is loaded and
passable, whatever it costs. -/
inductive SearchOffers (s : SearchState) : SearchState → Prop
  | through {pos : Position} {cell : GridCell} {g : γ} (near : pos ∈ neighbors s.pos)
      (loaded : s.overlay.cellAt world pos = some cell) (asked : ok g)
      (passable : (decisionOn world legality num context s pos cell g).1.passable = true) :
      SearchOffers s (leadsTo s pos cell (decisionOn world legality num context s pos cell g).1)

/-- Some entry of the frontier is about the state. -/
def PlanState.Waits (st : PlanState γ κ) (s : SearchState) : Prop :=
  ∃ entry ∈ st.frontier, entry.2.2 = s

/-! ## Decisions -/

variable {world legality num context ok}
variable {overlay : VirtualBlockOverlay} {current pos : Position} {cell : GridCell} {g g' : γ}

theorem evaluate_settled (hset : legality.Settled ok) (hg : ok g) (hg' : ok g')
    (candidate : MovementCandidate) :
    (evaluate legality num candidate g).1 = (evaluate legality num candidate g').1 := by
  cases candidate with
  | «break» pos blockType context =>
      simp only [evaluate, evaluateBreak, hset.canBreak_eq hg hg']
      split <;> rfl
  | place pos blockType context face =>
      simp only [evaluate, evaluatePlace, hset.canPlace_eq hg hg']
      split <;> rfl
  | _ => rfl

theorem cornerBlocker_settled (hset : legality.Settled ok) (hg : ok g) (hg' : ok g')
    (corner : Position) :
    (cornerBlocker world overlay legality num context corner g).1
      = (cornerBlocker world overlay legality num context corner g').1 := by
  unfold cornerBlocker
  split
  · rfl
  · next cell _ =>
      have hdecision : (evaluate legality num (.break corner cell.blockType context) g).1
          = (evaluate legality num (.break corner cell.blockType context) g').1 :=
        evaluate_settled hset hg hg' _
      split
      · rfl
      · split
        · rfl
        · split
          · rfl
          · simp only [hdecision]

theorem diagonalBlocker_settled (hset : legality.Settled ok) (hg : ok g) (hg' : ok g') :
    (diagonalBlocker world overlay legality num context current pos g).1
      = (diagonalBlocker world overlay legality num context current pos g').1 := by
  unfold diagonalBlocker
  split
  · rfl
  · have hfirst : (cornerBlocker world overlay legality num context
        (pos.1, current.2.1, current.2.2) g).1
          = (cornerBlocker world overlay legality num context
              (pos.1, current.2.1, current.2.2) g').1 := cornerBlocker_settled hset hg hg' _
    have hkept : ok (cornerBlocker world overlay legality num context
        (pos.1, current.2.1, current.2.2) g).2 := cornerBlocker_keeps hset.toKeeps hg _
    have hkept' : ok (cornerBlocker world overlay legality num context
        (pos.1, current.2.1, current.2.2) g').2 := cornerBlocker_keeps hset.toKeeps hg' _
    generalize cornerBlocker world overlay legality num context
      (pos.1, current.2.1, current.2.2) g = first at hfirst hkept ⊢
    generalize cornerBlocker world overlay legality num context
      (pos.1, current.2.1, current.2.2) g' = first' at hfirst hkept' ⊢
    obtain ⟨blocker, h⟩ := first
    obtain ⟨blocker', h'⟩ := first'
    obtain rfl : blocker = blocker' := hfirst
    cases blocker with
    | some blocker => rfl
    | none => exact cornerBlocker_settled hset hkept hkept' _

theorem walkableCandidate_settled (hset : legality.Settled ok) (hg : ok g) (hg' : ok g') :
    (walkableCandidate world overlay legality num context current pos cell g).1
      = (walkableCandidate world overlay legality num context current pos cell g').1 := by
  have hblocker : (diagonalBlocker world overlay legality num context current pos g).1
      = (diagonalBlocker world overlay legality num context current pos g').1 :=
    diagonalBlocker_settled hset hg hg'
  simp only [walkableCandidate]
  generalize diagonalBlocker world overlay legality num context current pos g = asked at hblocker ⊢
  generalize diagonalBlocker world overlay legality num context current pos g' = asked'
    at hblocker ⊢
  obtain ⟨blocker, h⟩ := asked
  obtain ⟨blocker', h'⟩ := asked'
  obtain rfl : blocker = blocker' := hblocker
  split
  · rfl
  split
  · rfl
  split
  · rfl
  split
  · split <;> rfl
  split
  · cases blocker <;> rfl
  · rfl

theorem solidCandidate_settled (hset : legality.Settled ok) (hg : ok g) (hg' : ok g') :
    (solidCandidate world overlay legality num context current pos cell g).1
      = (solidCandidate world overlay legality num context current pos cell g').1 := by
  have hdecision : (evaluate legality num (.break pos cell.blockType context) g).1
      = (evaluate legality num (.break pos cell.blockType context) g').1 :=
    evaluate_settled hset hg hg' _
  unfold solidCandidate
  split
  · rfl
  · split
    · simp only [hdecision]
      split <;> rfl
    · rfl

theorem candidateFor_settled (hset : legality.Settled ok) (hg : ok g) (hg' : ok g') :
    (candidateFor world overlay legality num context current pos cell g).1
      = (candidateFor world overlay legality num context current pos cell g').1 := by
  unfold candidateFor
  split
  · rfl
  split
  · rfl
  split
  · rfl
  split
  · exact walkableCandidate_settled hset hg hg'
  · exact solidCandidate_settled hset hg hg'

theorem decisionOn_keeps (hset : legality.Settled ok) (hg : ok g) (s : SearchState) :
    ok (decisionOn world legality num context s pos cell g).2 := by
  have hcandidate : ok (candidateFor world s.overlay legality num context s.pos pos cell g).2 :=
    (candidateFor_spec hset.toKeeps hg).2
  exact evaluate_keeps hset.toKeeps hcandidate

/-- What is decided on a cell does not depend on when governance is asked. -/
theorem decisionOn_settled (hset : legality.Settled ok) (hg : ok g) (hg' : ok g')
    (s : SearchState) :
    (decisionOn world legality num context s pos cell g).1
      = (decisionOn world legality num context s pos cell g').1 := by
  have hcandidate : (candidateFor world s.overlay legality num context s.pos pos cell g).1
      = (candidateFor world s.overlay legality num context s.pos pos cell g').1 :=
    candidateFor_settled hset hg hg'
  have hkept : ok (candidateFor world s.overlay legality num context s.pos pos cell g).2 :=
    (candidateFor_spec hset.toKeeps hg).2
  have hkept' : ok (candidateFor world s.overlay legality num context s.pos pos cell g').2 :=
    (candidateFor_spec hset.toKeeps hg').2
  simp only [decisionOn, hcandidate]
  exact evaluate_settled hset hkept hkept' _

/-! ## The loop over the neighbours -/

section Loop

variable [LinearOrder κ] (goal : NavigationGoal) {params : PlanParams κ}
variable {s : SearchState} {st st' st'' : PlanState γ κ}

variable (world legality num context ok) in
/-- A part of the loop over the neighbours of `s`: what it adds is offered
there and waits. -/
structure SearchGrows (s : SearchState) (st st' : PlanState γ κ) : Prop where
  governance : ok st.governance → ok st'.governance
  stopped : st'.stopped = st.stopped
  expanded : st'.expanded = st.expanded
  kept : ∀ t, st.Reached t → st'.Reached t
  waits : ∀ t, st.Waits t → st'.Waits t
  met : ∀ t, st'.Waits t → st.Waits t ∨ st'.Reached t
  fresh : ∀ t, st'.Reached t →
    st.Reached t ∨ (SearchOffers world legality num context ok s t ∧ st'.Waits t)

omit [LinearOrder κ] in
theorem SearchGrows.refl : SearchGrows world legality num context ok s st st where
  governance h := h
  stopped := rfl
  expanded := rfl
  kept _ h := h
  waits _ h := h
  met _ h := .inl h
  fresh _ h := .inl h

omit [LinearOrder κ] in
theorem SearchGrows.trans (h : SearchGrows world legality num context ok s st st')
    (h' : SearchGrows world legality num context ok s st' st'') :
    SearchGrows world legality num context ok s st st'' where
  governance hg := h'.governance (h.governance hg)
  stopped := h'.stopped.trans h.stopped
  expanded := h'.expanded.trans h.expanded
  kept t ht := h'.kept t (h.kept t ht)
  waits t ht := h'.waits t (h.waits t ht)
  met t ht := by
    rcases h'.met t ht with hold | hnew
    · exact (h.met t hold).imp_right (h'.kept t)
    · exact .inr hnew
  fresh t ht := by
    rcases h'.fresh t ht with hold | hnew
    · rcases h.fresh t hold with holder | ⟨hoffer, hwaits⟩
      · exact .inl holder
      · exact .inr ⟨hoffer, h'.waits t hwaits⟩
    · exact .inr hnew

/-- A passable decision reaches the state it leads to, unless that had been
reached for less. -/
theorem relax_grows {decision : CostDecision κ}
    (hoffer : SearchOffers world legality num context ok s (leadsTo s pos cell decision)) :
    SearchGrows world legality num context ok s st
        (relax world num goal params s pos cell decision st) ∧
      (relax world num goal params s pos cell decision st).Reached
        (leadsTo s pos cell decision) := by
  unfold leadsTo at hoffer ⊢
  simp only [relax]
  generalize nextStateAfterDecision s pos (overlayAfterDecision s.overlay decision cell) decision
    = next at hoffer ⊢
  generalize (if pos ∈ params.previousSegment
    then num.mul decision.cost params.backtrackCostFactor else decision.cost) = stepCost
  split
  · have hnext : ∀ cost, ((st.costSoFar.set next cost).get? next).isSome := fun cost => by
      rw [Dict.get?_set, if_pos rfl]
      rfl
    refine ⟨⟨id, rfl, rfl, fun t ht => ht.set _ _, ?_, ?_, ?_⟩, hnext _⟩
    · rintro t ⟨entry, hentry, rfl⟩
      exact ⟨entry, List.mem_append_left _ hentry, rfl⟩
    · rintro t ⟨entry, hentry, rfl⟩
      rcases List.mem_append.mp hentry with hold | hnew
      · exact .inl ⟨entry, hold, rfl⟩
      · rw [List.mem_singleton.mp hnew]
        exact .inr (hnext _)
    · intro t ht
      rcases PlanState.reached_set ht with rfl | hold
      · exact .inr ⟨hoffer, _, List.mem_append_right _ List.mem_cons_self, rfl⟩
      · exact .inl hold
  · next hdear =>
      refine ⟨.refl, ?_⟩
      show (st.costSoFar.get? next).isSome
      cases hcost : st.costSoFar.get? next with
      | some cost => rfl
      | none =>
          rw [hcost] at hdear
          exact absurd rfl hdear

variable (world legality num) in
/-- Whatever the neighbouring cell offers has been reached. -/
def Explored (context : BreakContext) (ok : γ → Prop) (s : SearchState) (pos : Position)
    (st : PlanState γ κ) : Prop :=
  ∀ cell g, s.overlay.cellAt world pos = some cell → ok g →
    (decisionOn world legality num context s pos cell g).1.passable = true →
    st.Reached (leadsTo s pos cell (decisionOn world legality num context s pos cell g).1)

omit [LinearOrder κ] in
theorem Explored.mono (h : Explored world legality num context ok s pos st)
    (hkept : ∀ t, st.Reached t → st'.Reached t) :
    Explored world legality num context ok s pos st' :=
  fun cell g hloaded hg hpass => hkept _ (h cell g hloaded hg hpass)

/-- A loaded neighbour is decided on, then relaxed when passable. -/
theorem visit_loaded (hloaded : s.overlay.cellAt world pos = some cell) :
    visit world legality num goal params s pos st
      = if (decisionOn world legality num params.breakContext s pos cell
            st.governance).1.passable = true
        then relax world num goal params s pos cell
          (decisionOn world legality num params.breakContext s pos cell st.governance).1
          { st with governance :=
              (decisionOn world legality num params.breakContext s pos cell st.governance).2 }
        else { st with governance :=
            (decisionOn world legality num params.breakContext s pos cell st.governance).2 } := by
  unfold visit
  rw [hloaded]
  rfl

/-- One neighbour: what it offers has been reached afterwards. -/
theorem visit_grows (hset : legality.Settled ok) (hlimit : params.unloadedBoundaryLimit = none)
    (hg : ok st.governance) (hnear : pos ∈ neighbors s.pos) :
    SearchGrows world legality num params.breakContext ok s st
        (visit world legality num goal params s pos st) ∧
      Explored world legality num params.breakContext ok s pos
        (visit world legality num goal params s pos st) := by
  cases hloaded : s.overlay.cellAt world pos with
  | none =>
      refine ⟨?_, fun cell g h => by rw [hloaded] at h; cases h⟩
      simp only [visit, hloaded, hlimit, Option.any_none, Bool.false_eq_true, if_false]
      split
      · exact .refl
      · exact ⟨id, rfl, rfl, fun _ h => h, fun _ h => h, fun _ h => .inl h,
          fun _ h => .inl h⟩
  | some cell =>
      have hkept : ok (decisionOn world legality num params.breakContext s pos cell
          st.governance).2 := decisionOn_keeps hset hg s
      have hasked : SearchGrows world legality num params.breakContext ok s st
          { st with governance :=
              (decisionOn world legality num params.breakContext s pos cell st.governance).2 } :=
        ⟨fun _ => hkept, rfl, rfl, fun _ h => h, fun _ h => h, fun _ h => .inl h,
          fun _ h => .inl h⟩
      have hsame : ∀ cell' g, s.overlay.cellAt world pos = some cell' → ok g →
          cell' = cell ∧ (decisionOn world legality num params.breakContext s pos cell' g).1
            = (decisionOn world legality num params.breakContext s pos cell st.governance).1 := by
        intro cell' g h hg'
        obtain rfl : cell = cell' := Option.some.inj (hloaded.symm.trans h)
        exact ⟨rfl, decisionOn_settled hset hg' hg s⟩
      rw [visit_loaded goal hloaded]
      by_cases hpass : (decisionOn world legality num params.breakContext s pos cell
          st.governance).1.passable = true
      · rw [if_pos hpass]
        have hoffer : SearchOffers world legality num params.breakContext ok s (leadsTo s pos cell
            (decisionOn world legality num params.breakContext s pos cell st.governance).1) :=
          .through hnear hloaded hg hpass
        obtain ⟨hgrows, hreached⟩ := relax_grows goal hoffer
        refine ⟨hasked.trans hgrows, fun cell' g h hg' _ => ?_⟩
        obtain ⟨rfl, hdecision⟩ := hsame cell' g h hg'
        rw [hdecision]
        exact hreached
      · rw [if_neg hpass]
        refine ⟨hasked, fun cell' g h hg' hpass' => absurd ?_ hpass⟩
        obtain ⟨rfl, hdecision⟩ := hsame cell' g h hg'
        rwa [hdecision] at hpass'

/-- The whole loop: everything `s` offers has been reached afterwards. -/
theorem visitAll_grows (hset : legality.Settled ok) (hlimit : params.unloadedBoundaryLimit = none)
    {near : List Position} (hnear : ∀ pos ∈ near, pos ∈ neighbors s.pos)
    (hg : ok st.governance) (hrunning : st.stopped = false) :
    SearchGrows world legality num params.breakContext ok s st
        (visitAll world legality num goal params s near st) ∧
      ∀ pos ∈ near, Explored world legality num params.breakContext ok s pos
        (visitAll world legality num goal params s near st) := by
  induction near generalizing st with
  | nil => exact ⟨.refl, fun pos h => by cases h⟩
  | cons pos near ih =>
      obtain ⟨hvisit, hexplored⟩ := visit_grows goal hset hlimit hg
        (hnear pos List.mem_cons_self)
      have hrunning' : (visit world legality num goal params s pos st).stopped = false :=
        hvisit.stopped.trans hrunning
      obtain ⟨hrest, hothers⟩ := ih (fun p hp => hnear p (List.mem_cons_of_mem _ hp))
        (hvisit.governance hg) hrunning'
      simp only [visitAll, hrunning', Bool.false_eq_true, if_false]
      refine ⟨hvisit.trans hrest, fun p hp => ?_⟩
      rcases List.mem_cons.mp hp with rfl | hp
      · exact hexplored.mono hrest.kept
      · exact hothers p hp

/-! ## The loop of the search -/

variable (world legality num) in
/-- What the loop of `plan` keeps. -/
structure Searching (context : BreakContext) (ok : γ → Prop) (start : SearchState)
    (st : PlanState γ κ) : Prop where
  governance : ok st.governance
  running : st.stopped = false
  covers : FrontierSearch.Covers (SearchOffers world legality num context ok) (· = start)
    (fun s => goal.isSatisfied s.pos = true) st.Reached st.Waits

/-- An expanded state is taken off the frontier and all it offers is reached. -/
theorem Searching.expand {start : SearchState} {popped : κ × Nat × SearchState}
    {noted : PlanState γ κ} (hset : legality.Settled ok)
    (hlimit : params.unloadedBoundaryLimit = none)
    (h : Searching world legality num goal params.breakContext ok start st)
    (hpopped : popped ∈ st.frontier) (hmissed : ¬ goal.isSatisfied popped.2.2.pos = true)
    (hgov : noted.governance = st.governance) (hstopped : noted.stopped = st.stopped)
    (hcosts : noted.costSoFar = st.costSoFar) (hfrontier : noted.frontier = st.frontier.erase popped) :
    Searching world legality num goal params.breakContext ok start
      (visitAll world legality num goal params popped.2.2 (neighbors popped.2.2.pos) noted) := by
  have hreached : ∀ t, noted.Reached t ↔ st.Reached t := fun t => by
    rw [PlanState.Reached, hcosts, PlanState.Reached]
  have hpending : ∀ t, noted.Waits t → st.Waits t := by
    rintro t ⟨entry, hentry, rfl⟩
    rw [hfrontier] at hentry
    exact ⟨entry, List.mem_of_mem_erase hentry, rfl⟩
  have hcurrent : st.Reached popped.2.2 := h.covers.met _ ⟨popped, hpopped, rfl⟩
  obtain ⟨hgrows, hexplored⟩ := visitAll_grows goal hset hlimit
    (fun pos (hpos : pos ∈ neighbors popped.2.2.pos) => hpos) (hgov ▸ h.governance)
    (hstopped.trans h.running)
  refine ⟨hgrows.governance (hgov ▸ h.governance),
    hgrows.stopped.trans (hstopped.trans h.running),
    h.covers.expand popped.2.2 hmissed ?_ ?_ ?_ ?_ ?_⟩
  · intro t hoffer
    cases hoffer with
    | through near loaded asked passable => exact hexplored _ near _ _ loaded asked passable
  · exact fun t ht => hgrows.kept t ((hreached t).mpr ht)
  · intro t ht
    rcases hgrows.fresh t ht with hold | ⟨hoffer, hwaits⟩
    · exact .inl ((hreached t).mp hold)
    · exact .inr ⟨(h.covers.sound _ hcurrent).step hoffer, hwaits⟩
  · rintro t ⟨entry, hentry, rfl⟩
    by_cases hsame : entry = popped
    · exact .inl (congrArg (·.2.2) hsame)
    · refine .inr (hgrows.waits _ ⟨entry, ?_, rfl⟩)
      rw [hfrontier]
      exact (List.mem_erase_of_ne hsame).mpr hentry
  · exact fun t ht => (hgrows.met t ht).imp_left (hpending t)

omit [LinearOrder κ] in
theorem initial_searching {origin : Position} (hg : ok g) :
    Searching world legality num goal context ok ⟨origin, ⟨[]⟩⟩
      (PlanState.initial num origin g) := by
  have hreached : (PlanState.initial num origin g).Reached = (· = ⟨origin, ⟨[]⟩⟩) := by
    funext t
    simp only [PlanState.Reached, PlanState.initial, Dict.get?_cons, eq_iff_iff]
    split
    · next h => exact iff_of_true rfl h.symm
    · next h => exact iff_of_false Bool.false_ne_true (Ne.symm h)
  refine ⟨hg, rfl, ?_⟩
  rw [hreached]
  refine .init fun t => ⟨?_, ?_⟩
  · rintro rfl
    exact ⟨_, List.mem_cons_self, rfl⟩
  · rintro ⟨entry, hentry, rfl⟩
    rw [List.mem_singleton.mp hentry]

theorem notePopped_same (origin : Position) (s : SearchState) (st : PlanState γ κ) :
    (notePopped world num goal params origin s st).governance = st.governance ∧
      (notePopped world num goal params origin s st).stopped = st.stopped ∧
      (notePopped world num goal params origin s st).costSoFar = st.costSoFar ∧
      (notePopped world num goal params origin s st).frontier = st.frontier ∧
      (notePopped world num goal params origin s st).expanded = st.expanded := by
  simp only [notePopped]
  split <;> exact ⟨rfl, rfl, rfl, rfl, rfl⟩

variable (world legality num) in
/-- How the loop ends: at a goal state, with no goal to be reached, or with its
expansions used up. -/
inductive SearchEnded (context : BreakContext) (ok : γ → Prop) (start : SearchState) (most : Nat) :
    Option SearchState → PlanState γ κ → Prop
  | found {s : SearchState} {st : PlanState γ κ} (satisfied : goal.isSatisfied s.pos = true)
      (reach : FrontierSearch.Reach (SearchOffers world legality num context ok) (· = start) s) :
      SearchEnded context ok start most (some s) st
  | exhausted {st : PlanState γ κ} (missed : ∀ s,
      FrontierSearch.Reach (SearchOffers world legality num context ok) (· = start) s →
        ¬ goal.isSatisfied s.pos = true) : SearchEnded context ok start most none st
  | spent {st : PlanState γ κ} (expanded : st.expanded = most) :
      SearchEnded context ok start most none st

/-- The run lemma. -/
theorem search_ended (hset : legality.Settled ok) (hlimit : params.unloadedBoundaryLimit = none)
    (origin : Position) {start : SearchState} {left : Nat}
    (h : Searching world legality num goal params.breakContext ok start st) :
    SearchEnded world legality num goal params.breakContext ok start (st.expanded + left)
      (search world legality num goal params origin left st).1
      (search world legality num goal params origin left st).2 := by
  induction left generalizing st with
  | zero => exact .spent rfl
  | succ left ih =>
      simp only [search]
      split
      · next hempty =>
          have hnil : st.frontier = [] := List.argmin_eq_none.mp hempty
          refine .exhausted fun s hs => h.covers.missed ?_ hs
          rintro t ⟨entry, hentry, -⟩
          rw [hnil] at hentry
          cases hentry
      · next popped hpopped =>
          have hmem : popped ∈ st.frontier := List.argmin_mem hpopped
          have hreach := h.covers.sound _ (h.covers.met popped.2.2 ⟨popped, hmem, rfl⟩)
          obtain ⟨hgov, hstopped, hcosts, hfrontier, hexpanded⟩ :=
            notePopped_same goal origin popped.2.2
              { st with frontier := st.frontier.erase popped, expanded := st.expanded + 1 }
          generalize notePopped world num goal params origin popped.2.2
            { st with frontier := st.frontier.erase popped, expanded := st.expanded + 1 } = noted
            at hgov hstopped hcosts hfrontier hexpanded ⊢
          split
          · next hsat => exact .found hsat hreach
          · next hmissed =>
              have hnext : Searching world legality num goal params.breakContext ok start
                  (visitAll world legality num goal params popped.2.2
                    (neighbors popped.2.2.pos) noted) :=
                h.expand goal hset hlimit hmem hmissed hgov hstopped hcosts hfrontier
              have hcount : (visitAll world legality num goal params popped.2.2
                  (neighbors popped.2.2.pos) noted).expanded = st.expanded + 1 :=
                (visitAll_grows goal hset hlimit (fun _ hpos => hpos)
                  (hgov ▸ h.governance) (hstopped.trans h.running)).1.expanded.trans hexpanded
              rw [if_neg (by rw [hnext.running]; exact Bool.false_ne_true)]
              have hrest := ih hnext
              rwa [hcount, Nat.add_assoc, Nat.add_comm 1 left] at hrest

/-- What `plan` makes of the end of the loop succeeds when the loop has found
a goal, and tells how many states were expanded. -/
theorem planResult_success {origin : Position} {found : Option SearchState}
    {result : PathResult κ} (h : planResult num params origin found st = some result) :
    result.success = found.isSome ∧ result.expanded = st.expanded := by
  have hbuilt : ∀ {s success reason}, buildResult num origin s st success reason = some result →
      result.success = success ∧ result.expanded = st.expanded := by
    intro s success reason hresult
    obtain ⟨path, -, rfl⟩ := Option.map_eq_some_iff.mp hresult
    exact ⟨rfl, rfl⟩
  have hfailed : ∀ failed : PathResult κ, failed.success = false →
      failed.expanded = st.expanded → some failed = some result →
      result.success = false ∧ result.expanded = st.expanded := by
    intro failed hsuccess hexpanded hsame
    obtain rfl := Option.some.inj hsame
    exact ⟨hsuccess, hexpanded⟩
  cases found with
  | some s => exact hbuilt h
  | none =>
      simp only [planResult] at h
      split at h
      · split at h
        · split at h
          · exact hbuilt h
          · cases h
        · exact hfailed _ rfl rfl h
      · exact hfailed _ rfl rfl h

end Loop

/-! ## The answer of `plan` -/

section Answer

variable {σ : Type} {pyStr : σ → String} {readings : Nat → BreakReadings σ} {p : GovernancePolicy}

theorem GovernancePolicy.settled_unassessed (h : p.assessed = false) :
    (GovernancePolicy.legality pyStr readings).Settled fun g => g.1 = p where
  toKeeps := (GovernancePolicy.steady_unassessed h).toKeeps
  canBreak_eq := by
    rintro pos blockType context g g' rfl hg'
    simp only [GovernancePolicy.legality, hg']
    rw [GovernancePolicy.canBreak_unassessed h _ (readings g.2) (readings g'.2)]
  canPlace_eq := by
    rintro pos blockType context g g' rfl hg'
    simp only [GovernancePolicy.legality, hg']

variable [LinearOrder κ]

/-- A search without a limit on unloaded cells that has not used up its expansions
has decided: it succeeds exactly when some chain of offers from the start
leads to a state that satisfies the goal. Costs, heuristic and the order of
the frontier have no part in it; nor does a partial path, which such a search
returns only when there is no path. -/
theorem plan_decides (world : GridWorld) (num : CostNumbers κ) (goal : NavigationGoal)
    (params : PlanParams κ) (start : Position) (n : Nat) (hassessed : p.assessed = false)
    (hlimit : params.unloadedBoundaryLimit = none) {result : PathResult κ}
    {g : GovernancePolicy × Nat}
    (hplan : plan world (GovernancePolicy.legality pyStr readings) num goal params start (p, n)
      = .ok (some result, g))
    (hspare : (result.expanded : Int) < params.maxExpansions) :
    result.success = true ↔ ∃ s,
      FrontierSearch.Reach (SearchOffers world (GovernancePolicy.legality pyStr readings) num
        params.breakContext fun g => g.1 = p) (· = ⟨start, ⟨[]⟩⟩) s ∧
      goal.isSatisfied s.pos = true := by
  have hset : (GovernancePolicy.legality pyStr readings).Settled fun g => g.1 = p :=
    GovernancePolicy.settled_unassessed hassessed
  unfold plan at hplan
  split at hplan
  · cases hplan
  · split at hplan
    · cases hplan
    · have hinitial : Searching world (GovernancePolicy.legality pyStr readings) num goal
          params.breakContext (fun g => g.1 = p) ⟨start, ⟨[]⟩⟩
          (PlanState.initial num start (p, n)) := initial_searching goal rfl
      have hended : SearchEnded world (GovernancePolicy.legality pyStr readings) num goal
          params.breakContext (fun g => g.1 = p) ⟨start, ⟨[]⟩⟩ (0 + params.maxExpansions.toNat)
          (search world (GovernancePolicy.legality pyStr readings) num goal params start
            params.maxExpansions.toNat (.initial num start (p, n))).1
          (search world (GovernancePolicy.legality pyStr readings) num goal params start
            params.maxExpansions.toNat (.initial num start (p, n))).2 :=
        search_ended goal hset hlimit start hinitial
      generalize search world (GovernancePolicy.legality pyStr readings) num goal params start
        params.maxExpansions.toNat (.initial num start (p, n)) = outcome at hplan hended
      obtain ⟨hresult, -⟩ := Prod.mk.inj (Except.ok.inj hplan)
      obtain ⟨hsuccess, hexpanded⟩ := planResult_success hresult
      obtain ⟨found, st⟩ := outcome
      cases hended with
      | found satisfied reach => exact iff_of_true hsuccess ⟨_, reach, satisfied⟩
      | exhausted missed =>
          refine iff_of_false (fun h => ?_) ?_
          · rw [hsuccess] at h
            cases h
          · rintro ⟨s, hreach, hsat⟩
            exact missed s hreach hsat
      | spent expanded =>
          rw [hexpanded, expanded] at hspare
          omega

end Answer

/-- Whether a plan was found and how many states were expanded. -/
def answerOf {κ β : Type} (planned : Except String (Option (PathResult κ) × β)) :
    Option (Bool × Nat) :=
  match planned with
  | .ok (some result, _) => some (result.success, result.expanded)
  | _ => none

/-- Nothing leads out of the loaded part of the corridor. -/
theorem plan_decides_corridor :
    ∃ result g, planExact corridor naturalPolicy (0, 64, 0) (9, 64, 0) = .ok (some result, g) ∧
      ¬ ∃ s, FrontierSearch.Reach (SearchOffers corridor exactLegality .exact .travel
          fun g => g.1 = naturalPolicy) (· = ⟨(0, 64, 0), ⟨[]⟩⟩) s ∧
        (NavigationGoal.block (9, 64, 0)).isSatisfied s.pos = true := by
  have hrun : (answerOf (planExact corridor naturalPolicy (0, 64, 0) (9, 64, 0))).map
      (fun answer => (answer.1, decide (answer.2 < 4096))) = some (false, true) := by decide +kernel
  cases hplan : planExact corridor naturalPolicy (0, 64, 0) (9, 64, 0) with
  | error message =>
      rw [hplan] at hrun
      cases hrun
  | ok planned =>
      obtain ⟨found, g⟩ := planned
      cases found with
      | none =>
          rw [hplan] at hrun
          cases hrun
      | some result =>
          rw [hplan] at hrun
          obtain ⟨hfailed, hspare⟩ := Prod.mk.inj (Option.some.inj hrun)
          refine ⟨result, g, rfl, fun hreach => ?_⟩
          have hsuccess := (plan_decides corridor .exact (.block (9, 64, 0)) exactParams
            (0, 64, 0) 0 rfl rfl hplan (Int.ofNat_lt.mpr (of_decide_eq_true hspare))).mpr hreach
          exact Bool.false_ne_true (hfailed.symm.trans hsuccess)

end Completeness

end MineBot
