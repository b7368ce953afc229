import MineBot.PathPlanner

/-!
# Goal heuristics decide satisfaction

A goal's heuristic is its distance from being satisfied: never negative,
and 0 exactly where the goal is. `Built` are the goals the code can build;
a composite has a child, and the distance an avoid goal asks for is
positive. The induction is on how a goal was built, one lemma for each
combinator.
-/

namespace MineBot

namespace NavigationGoal

/-- A goal built from the goal classes, nested to any depth. -/
inductive Built : NavigationGoal → Prop
  | block (target : Position) : Built (.block target)
  | near (target : Position) (radius : Nat) : Built (.near target radius)
  | xz (x z : Int) : Built (.xz x z)
  | yLevel (y : Int) : Built (.yLevel y)
  | any {goal : NavigationGoal} {goals : List NavigationGoal} :
      Built goal → (∀ child ∈ goals, Built child) → Built (.any goal goals)
  | all {goal : NavigationGoal} {goals : List NavigationGoal} :
      Built goal → (∀ child ∈ goals, Built child) → Built (.all goal goals)
  | avoid (target : Position) {minDistance : Int} {fallback : Option NavigationGoal} :
      1 ≤ minDistance → (∀ child ∈ fallback, Built child) →
      Built (.avoid target minDistance fallback)

/-- At `pos` the heuristic is a distance from being satisfied. -/
structure Decides (goal : NavigationGoal) (pos : Position) : Prop where
  nonneg : 0 ≤ goal.heuristic pos
  zero : goal.heuristic pos = 0 ↔ goal.isSatisfied pos = true

end NavigationGoal

open NavigationGoal

theorem manhattan_nonneg (a b : Position) : 0 ≤ manhattan a b := by
  unfold manhattan
  omega

theorem manhattan_eq_zero {a b : Position} : manhattan a b = 0 ↔ a = b := by
  obtain ⟨x, y, z⟩ := a
  obtain ⟨x', y', z'⟩ := b
  simp only [manhattan, Prod.mk.injEq]
  omega

variable {goal : NavigationGoal} {goals : List NavigationGoal} {pos : Position}

/-- What is missing to a bound: nothing exactly when the bound is met. -/
theorem max_zero_sub_eq_zero {a b : Int} : max 0 (a - b) = 0 ↔ a ≤ b := by
  rw [max_eq_left_iff]
  omega

theorem block_decides (target : Position) : Decides (.block target) pos where
  nonneg := manhattan_nonneg pos target
  zero := by simp [block, manhattan_eq_zero]

theorem near_decides (target : Position) (radius : Nat) : Decides (.near target radius) pos where
  nonneg := le_max_left ..
  zero := by simp only [near, max_zero_sub_eq_zero, decide_eq_true_eq]

theorem xz_decides (x z : Int) : Decides (.xz x z) pos where
  nonneg := by simp only [xz]; omega
  zero := by
    simp only [xz, decide_eq_true_eq]
    omega

theorem yLevel_decides (y : Int) : Decides (.yLevel y) pos where
  nonneg := by simp only [yLevel]; omega
  zero := by
    simp only [yLevel, decide_eq_true_eq]
    omega

/-- The least of the children's distances, with the least so far. -/
theorem foldl_min_spec (hgoals : ∀ child ∈ goals, Decides child pos) {least : Int}
    (hleast : 0 ≤ least) :
    0 ≤ goals.foldl (fun least child => min least (child.heuristic pos)) least ∧
      (goals.foldl (fun least child => min least (child.heuristic pos)) least = 0 ↔
        least = 0 ∨ ∃ child ∈ goals, child.isSatisfied pos = true) := by
  induction goals generalizing least with
  | nil => simpa using hleast
  | cons child goals ih =>
      obtain ⟨hchild, hrest⟩ := List.forall_mem_cons.mp hgoals
      have hmin : min least (child.heuristic pos) = 0 ↔
          least = 0 ∨ child.isSatisfied pos = true := by
        have hnonneg := hchild.nonneg
        rw [← hchild.zero]
        omega
      obtain ⟨hnonneg, hzero⟩ := ih hrest (le_min hleast hchild.nonneg)
      refine ⟨hnonneg, ?_⟩
      rw [List.foldl_cons, hzero, hmin, or_assoc]
      simp only [List.mem_cons, exists_eq_or_imp]

theorem any_decides (hgoal : Decides goal pos) (hgoals : ∀ child ∈ goals, Decides child pos) :
    Decides (.any goal goals) pos := by
  obtain ⟨hnonneg, hzero⟩ := foldl_min_spec hgoals hgoal.nonneg
  refine ⟨hnonneg, hzero.trans ?_⟩
  rw [hgoal.zero]
  simp [NavigationGoal.any]

theorem all_decides (hgoal : Decides goal pos) (hgoals : ∀ child ∈ goals, Decides child pos) :
    Decides (.all goal goals) pos := by
  have hsum : ∀ gs : List NavigationGoal, (∀ child ∈ gs, Decides child pos) →
      0 ≤ (gs.map (·.heuristic pos)).sum ∧ ((gs.map (·.heuristic pos)).sum = 0 ↔
        gs.all (·.isSatisfied pos) = true) := by
    intro gs hgs
    induction gs with
    | nil => exact ⟨le_rfl, by simp⟩
    | cons child gs ih =>
        obtain ⟨hchild, hrest⟩ := List.forall_mem_cons.mp hgs
        obtain ⟨hnonneg, hzero⟩ := ih hrest
        have hchild0 := hchild.nonneg
        rw [List.map_cons, List.sum_cons, List.all_cons, Bool.and_eq_true, ← hzero, ← hchild.zero]
        omega
  obtain ⟨hnonneg, hzero⟩ := hsum (goal :: goals) (List.forall_mem_cons.mpr ⟨hgoal, hgoals⟩)
  exact ⟨hnonneg, hzero⟩

/-- A fallback is kept to besides the distance. -/
theorem avoid_decides (target : Position) (minDistance : Int) {fallback : Option NavigationGoal}
    (hfallback : ∀ child ∈ fallback, Decides child pos) :
    Decides (.avoid target minDistance fallback) pos := by
  have hmet := max_zero_sub_eq_zero (a := minDistance) (b := manhattan pos target)
  cases fallback with
  | none =>
      refine ⟨by simp [avoid], ?_⟩
      simp only [avoid, Option.map_none, Option.getD_none, Int.add_zero, Option.all_none,
        and_true, decide_eq_true_eq]
      exact hmet
  | some child =>
      have hchild := hfallback child rfl
      have hnonneg := hchild.nonneg
      refine ⟨by simp only [avoid, Option.map_some, Option.getD_some]; omega, ?_⟩
      simp only [avoid, Option.map_some, Option.getD_some, Option.all_some, decide_eq_true_eq,
        ← hchild.zero, ← hmet]
      omega

/-- **A heuristic is 0 exactly where its goal is satisfied**, and positive
elsewhere. -/
theorem heuristic_decides (hbuilt : goal.Built) (pos : Position) :
    0 ≤ goal.heuristic pos ∧ (goal.heuristic pos = 0 ↔ goal.isSatisfied pos = true) := by
  suffices h : Decides goal pos from ⟨h.nonneg, h.zero⟩
  induction hbuilt with
  | block target => exact block_decides target
  | near target radius => exact near_decides target radius
  | xz x z => exact xz_decides x z
  | yLevel y => exact yLevel_decides y
  | any _ _ hgoal hgoals => exact any_decides hgoal hgoals
  | all _ _ hgoal hgoals => exact all_decides hgoal hgoals
  | avoid target _ _ hfallback => exact avoid_decides target _ hfallback

/-- Get away from the origin, on to one of two blocks. -/
theorem heuristic_decides_escape :
    (avoid (0, 64, 0) 4 (some (.any (.block (6, 64, 0)) [.block (0, 64, 6)]))).heuristic
        (1, 64, 0) = 8 ∧
      (0 ≤ (avoid (0, 64, 0) 4 (some (.any (.block (6, 64, 0)) [.block (0, 64, 6)]))).heuristic
        (1, 64, 0) ∧
      ((avoid (0, 64, 0) 4 (some (.any (.block (6, 64, 0)) [.block (0, 64, 6)]))).heuristic
        (1, 64, 0) = 0 ↔
      (avoid (0, 64, 0) 4 (some (.any (.block (6, 64, 0)) [.block (0, 64, 6)]))).isSatisfied
        (1, 64, 0) = true)) := by
  refine ⟨by decide, heuristic_decides (.avoid (0, 64, 0) (by decide) fun child hchild => ?_) _⟩
  obtain rfl := Option.some.inj hchild
  refine .any (.block _) fun child hchild => ?_
  obtain rfl := List.mem_singleton.mp hchild
  exact .block _

end MineBot
