import MineBot.PathCosts
import MineBot.PathRecheck

/-!
# Segments and their targets

`SegmentedNavigator.next_segment` plans, cuts the tail of a partial path
that ended at the unloaded boundary, rechecks what is left and reports the
position of its last step as the segment's target.

A step of the search that only acts on the world (a placement, an opened
passage, a break above the next cell) has the position of the cell it acts
on. The planner never ends a path with one: the chosen state is cheaper
than any other at its position, or is the first that satisfies the goal.
But the cut tail does, and the target is then a cell beside the bot.
-/

namespace MineBot

/-! ## The source -/

section Segment

variable {γ κ : Type} [LinearOrder κ] (world : GridWorld) (legality : Legality γ)
  (num : CostNumbers κ) (params : PlanParams κ)

end Segment

/-! ## Where the bot stands -/

namespace Move

variable {κ : Type}

/-- A break above the next cell: the search does not move the bot. -/
def headroomBreak (m : Move κ) : Prop := m.step.move = .break ∧ m.after.pos = m.before.pos

instance (m : Move κ) : Decidable m.headroomBreak := inferInstanceAs (Decidable (_ ∧ _))

/-- Where a step leaves the bot that stands at `pos`. -/
def standing (pos : Position) (m : Move κ) : Position :=
  if m.step.move = .place ∨ m.step.move = .open ∨ m.headroomBreak then pos else m.step.pos

/-- The step leaves the bot where it is, and acts on another cell. -/
def Beside (m : Move κ) : Prop :=
  (m.step.move = .place ∨ m.step.move = .open ∨ m.headroomBreak) ∧ m.step.pos ≠ m.before.pos

end Move

/-- Where the steps, in order, leave the bot. -/
def standingAfter {κ : Type} (start : Position) (moves : List (Move κ)) : Position :=
  moves.foldl Move.standing start

section Chain

variable {γ κ : Type} {world : GridWorld} {legality : Legality γ} {num : CostNumbers κ}
variable {context : BreakContext} {ok : γ → Prop} {cameFrom : Dict SearchState (CameFrom κ)}
variable {start s : SearchState} {moves : List (Move κ)}

/-- A step of the search leaves the bot where its state has it; its own
position is that of the bot unless it acts beside it. -/
theorem standing_of_stepsTo {m : Move κ}
    (h : StepsTo world legality num context ok m.before m.step m.after) :
    m.standing m.before.pos = m.after.pos ∧ (m.step.pos = m.after.pos ↔ ¬ m.Beside) := by
  obtain ⟨before, step, after⟩ := m
  change StepsTo world legality num context ok before step after at h
  have hmoves : after.pos = step.pos → step.move ≠ .place → step.move ≠ .open →
      (step.move = .break → step.pos ≠ before.pos) →
      Move.standing before.pos ⟨before, step, after⟩ = after.pos ∧
        (step.pos = after.pos ↔ ¬ Move.Beside ⟨before, step, after⟩) := by
    intro hpos hplace hopen hbreak
    have hnone : ¬ (step.move = .place ∨ step.move = .open ∨
        Move.headroomBreak ⟨before, step, after⟩) := by
      rintro (h | h | ⟨h, hstays⟩)
      · exact hplace h
      · exact hopen h
      · exact hbreak h (hpos.symm.trans hstays)
    refine ⟨(if_neg hnone).trans hpos.symm, fun _ hbeside => hnone hbeside.1, fun _ => hpos.symm⟩
  have hacts : after.pos = before.pos →
      (step.move = .place ∨ step.move = .open ∨ step.move = .break) →
      Move.standing before.pos ⟨before, step, after⟩ = after.pos ∧
        (step.pos = after.pos ↔ ¬ Move.Beside ⟨before, step, after⟩) := by
    intro hpos hkind
    have hstays : step.move = .place ∨ step.move = .open ∨
        Move.headroomBreak ⟨before, step, after⟩ := by
      rcases hkind with h | h | h
      · exact .inl h
      · exact .inr (.inl h)
      · exact .inr (.inr ⟨h, hpos⟩)
    refine ⟨(if_pos hstays).trans hpos.symm, ?_⟩
    rw [hpos]
    exact ⟨fun heq hbeside => hbeside.2 heq, fun hnot => by_contra fun hne => hnot ⟨hstays, hne⟩⟩
  cases h with
  | enter kind near =>
      refine hmoves rfl ?_ ?_ ?_ <;> intro hmove <;> rw [hmove] at kind <;> cases kind
  | dig kind =>
      refine hmoves rfl ?_ ?_ ?_ <;> intro hmove <;> rw [hmove] at kind <;> cases kind
  | breakInto kind near =>
      refine hmoves rfl ?_ ?_ fun _ => neighbors_ne near <;> rw [kind] <;> exact nofun
  | breakAbove kind => exact hacts rfl (.inr (.inr kind))
  | place kind => exact hacts rfl (.inl kind)
  | «open» kind => exact hacts rfl (.inr (.inl kind))

/-- A chain whose entries are steps of the search leads the bot through its states. -/
theorem Retraced.standing (h : Retraced cameFrom start moves s)
    (hentries : ∀ s entry, cameFrom.get? s = some entry →
      StepsTo world legality num context ok entry.prev entry.pathStep s) :
    standingAfter start.pos moves = s.pos := by
  induction h with
  | start => rfl
  | @snoc moves s entry _ hentry _ ih =>
      have hstep : StepsTo world legality num context ok
          (⟨entry.prev, entry.pathStep, s⟩ : Move κ).before entry.pathStep s := hentries s entry hentry
      rw [standingAfter, List.foldl_append, List.foldl_cons, List.foldl_nil]
      change Move.standing (standingAfter start.pos moves) _ = _
      rw [ih]
      exact (standing_of_stepsTo (m := ⟨entry.prev, entry.pathStep, s⟩) hstep).1

/-- Cut short, a chain is a chain. -/
theorem Retraced.take (h : Retraced cameFrom start moves s) (n : Nat) :
    ∃ u, Retraced cameFrom start (moves.take n) u := by
  induction h with
  | start => exact ⟨start, by simpa using Retraced.start⟩
  | @snoc moves s entry hne hentry hrest ih =>
      by_cases hn : n ≤ moves.length
      · rw [List.take_append_of_le_length hn]
        exact ih
      · refine ⟨s, ?_⟩
        rw [List.take_of_length_le (by simp; omega)]
        exact .snoc hne hentry hrest

/-- The last move of a chain leads to its end. -/
theorem Retraced.getLast (h : Retraced cameFrom start moves s) {m : Move κ}
    (hm : moves.getLast? = some m) :
    ∃ entry, cameFrom.get? s = some entry ∧ m = ⟨entry.prev, entry.pathStep, s⟩ := by
  cases h with
  | start => cases hm
  | snoc _ hentry _ =>
      rw [List.getLast?_concat] at hm
      exact ⟨_, hentry, (Option.some.inj hm).symm⟩

end Chain

/-! ## The segment -/

section Segment

variable {γ : Type} {world : GridWorld} {legality : Legality γ} {params : PlanParams (WithTop ℚ)}
variable {start target : Position} {g : γ}

/-- A chosen state is not one in which the bot has just acted where it stood. -/
theorem Chosen.moved {goal : NavigationGoal} {st : PlanState γ (WithTop ℚ)} {origin s : SearchState}
    {success : Bool} {reason : String} (hcosted : Costed goal origin st)
    (h : Chosen goal st s success reason) {entry : CameFrom (WithTop ℚ)}
    (hentry : st.cameFrom.get? s = some entry) : s.pos ≠ entry.prev.pos := by
  intro hpos
  cases h with
  | arrived hsatisfied =>
      rw [hpos, (hcosted.entry s entry hentry).1] at hsatisfied
      cases hsatisfied
  | best hleast =>
      obtain ⟨hreached, p, q, c, hp, -, hc, hq, hle⟩ := hcosted.entry_cost hentry
      have hbest := hleast entry.prev hreached hpos.symm
      rw [hp, hc, WithTop.coe_le_coe] at hbest
      linarith

end Segment

end MineBot
