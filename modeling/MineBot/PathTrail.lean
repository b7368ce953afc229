import MineBot.PathPlanner

/-!
# Trails of the search

`StepsTo` says what one step of the search can do: enter a cell as it is, dig
down, break into a cell, break above one, place a support, or open a
passage. `stepsTo_of_passable` is the only place where the candidates are taken
apart; the search and the walk back over `came_from` are then followed once,
in `search_trails` and `plan_trail`.

`ok` is whatever the answers of governance preserve of its state.
-/

namespace MineBot

/-- The kinds that enter a cell as it is. -/
def MoveKind.enters : MoveKind → Bool
  | .walk | .diagonal | .ascend | .pillar | .descend | .swim | .fall => true
  | _ => false

/-- The answers of governance preserve `ok`. -/
structure Legality.Keeps {γ : Type} (legality : Legality γ) (ok : γ → Prop) : Prop where
  canBreak : ∀ {pos blockType context g}, ok g → ok (legality.canBreak pos blockType context g).2
  canPlace : ∀ {pos blockType context g}, ok g → ok (legality.canPlace pos blockType context g).2

section Steps

variable {γ κ : Type} (world : GridWorld) (legality : Legality γ) (num : CostNumbers κ)
  (context : BreakContext) (ok : γ → Prop)

/-- `can_break` has allowed the break. -/
def BreakAllowed (pos : Position) (blockType : String) : Prop :=
  ∃ g, ok g ∧ (legality.canBreak pos blockType context g).1.allowed = true

/-- `can_place` has allowed the placement. -/
def PlaceAllowed (pos : Position) (blockType : String) : Prop :=
  ∃ g, ok g ∧ (legality.canPlace pos blockType .travel g).1.allowed = true

/-- The cell can be stood in, as far as support and headroom go. -/
structure Footing (overlay : VirtualBlockOverlay) (pos : Position) (cell : GridCell) : Prop where
  supported : cell.requiresSupport = true → hasSupport world overlay pos = true
  clear : blockedHeadroom world overlay pos cell = none

/-- What `_candidate_for` proposes, unless it is invalid. -/
inductive Proposes (overlay : VirtualBlockOverlay) (current pos : Position) (cell : GridCell) :
    MovementCandidate → Prop
  | simple {move : SimpleMove} (kind : move ≠ .downward) (walkable : cell.walkable = true)
      (footing : move ≠ .swim → Footing world overlay pos cell)
      (corners : move = .diagonal →
        ∃ g, (diagonalBlocker world overlay legality num context current pos g).1 = none) :
      Proposes overlay current pos cell (.simple move pos)
  | fall (walkable : cell.walkable = true) (footing : Footing world overlay pos cell) :
      Proposes overlay current pos cell (.fall pos cell.fallDepth)
  | downward (below : pos = current.down) (solid : cell.walkable = false)
      (footing : Footing world overlay pos cell)
      (allowed : BreakAllowed legality context ok pos cell.blockType) :
      Proposes overlay current pos cell (.simple .downward pos)
  | breakInto (solid : cell.walkable = false) (footing : Footing world overlay pos cell)
      (safe : gravityBreakHazard world overlay pos cell.blockType = none) :
      Proposes overlay current pos cell (.break pos cell.blockType context)
  | breakAbove {headroom : Position} {blockType : String}
      (blocked : blockedHeadroom world overlay pos cell = some (headroom, blockType))
      (safe : gravityBreakHazard world overlay headroom blockType = none) :
      Proposes overlay current pos cell (.break headroom blockType context)
  | place (needed : cell.requiresSupport = true) (missing : hasSupport world overlay pos = false)
      (face : Option String) :
      Proposes overlay current pos cell (.place pos.down "cobblestone" .travel face)
  | «open» (solid : cell.walkable = false) (target : Position) :
      Proposes overlay current pos cell (.open pos cell.blockType (some target))

/-- A step of the search, the step of the path it stands for, and where it
leads. -/
inductive StepsTo (s : SearchState) (step : PathStep κ) : SearchState → Prop
  | enter {cell : GridCell} (kind : step.move.enters = true) (near : step.pos ∈ neighbors s.pos)
      (loaded : s.overlay.cellAt world step.pos = some cell) (walkable : cell.walkable = true)
      (footing : step.move ≠ .swim → Footing world s.overlay step.pos cell)
      (corners : step.move = .diagonal →
        ∃ g, (diagonalBlocker world s.overlay legality num context s.pos step.pos g).1 = none)
      (shallow : step.move = .fall → max 1 cell.fallDepth ≤ maxSafeFall) :
      StepsTo s step ⟨step.pos, s.overlay⟩
  | dig {cell : GridCell} (kind : step.move = .downward) (below : step.pos = s.pos.down)
      (loaded : s.overlay.cellAt world step.pos = some cell) (solid : cell.walkable = false)
      (footing : Footing world s.overlay step.pos cell)
      (allowed : BreakAllowed legality context ok step.pos cell.blockType) :
      StepsTo s step ⟨step.pos, s.overlay⟩
  | breakInto {cell : GridCell} (kind : step.move = .break) (near : step.pos ∈ neighbors s.pos)
      (loaded : s.overlay.cellAt world step.pos = some cell) (solid : cell.walkable = false)
      (observed : step.blockType = cell.blockType)
      (safe : gravityBreakHazard world s.overlay step.pos cell.blockType = none)
      (allowed : BreakAllowed legality context ok step.pos cell.blockType) :
      StepsTo s step ⟨step.pos, s.overlay.setCell step.pos airCell⟩
  | breakAbove {nextPos : Position} {cell : GridCell} {blockType : String}
      (kind : step.move = .break) (near : nextPos ∈ neighbors s.pos)
      (loaded : s.overlay.cellAt world nextPos = some cell)
      (blocked : blockedHeadroom world s.overlay nextPos cell = some (step.pos, blockType))
      (observed : ∀ c, s.overlay.cellAt world step.pos = some c → step.blockType = c.blockType)
      (safe : gravityBreakHazard world s.overlay step.pos blockType = none)
      (allowed : BreakAllowed legality context ok step.pos blockType) :
      StepsTo s step ⟨s.pos, s.overlay.setCell step.pos airCell⟩
  | place {nextPos : Position} {cell : GridCell} (kind : step.move = .place)
      (near : nextPos ∈ neighbors s.pos) (support : step.pos = nextPos.down)
      (loaded : s.overlay.cellAt world nextPos = some cell)
      (needed : cell.requiresSupport = true)
      (missing : hasSupport world s.overlay nextPos = false)
      (observed : ∀ c, s.overlay.cellAt world step.pos = some c → step.blockType = c.blockType)
      (allowed : PlaceAllowed legality ok step.pos "cobblestone") :
      StepsTo s step ⟨s.pos,
        s.overlay.setCell step.pos { blockType := "cobblestone", walkable := false }⟩
  | «open» {cell : GridCell} (kind : step.move = .open) (near : step.pos ∈ neighbors s.pos)
      (loaded : s.overlay.cellAt world step.pos = some cell) (solid : cell.walkable = false) :
      StepsTo s step ⟨s.pos, s.overlay.opened step.pos step.blockType step.openHeadroomBlock
        step.interactionTarget⟩

/-! ## What the candidates are -/

variable {world legality num context ok}
variable {overlay : VirtualBlockOverlay} {current pos : Position} {cell : GridCell} {g : γ}
variable {candidate : MovementCandidate}

theorem cornerBlocker_keeps (hkeeps : legality.Keeps ok) (hg : ok g) (corner : Position) :
    ok (cornerBlocker world overlay legality num context corner g).2 := by
  unfold cornerBlocker
  split
  · exact hg
  · split
    · exact hg
    · split
      · exact hg
      · split
        · exact hg
        · simp only [evaluate, evaluateBreak]
          split <;> exact hkeeps.canBreak hg

theorem diagonalBlocker_keeps (hkeeps : legality.Keeps ok) (hg : ok g) :
    ok (diagonalBlocker world overlay legality num context current pos g).2 := by
  unfold diagonalBlocker
  split
  · exact hg
  · have hfirst : ok (cornerBlocker world overlay legality num context
        (pos.1, current.2.1, current.2.2) g).2 := cornerBlocker_keeps hkeeps hg _
    split
    · next h => rw [h] at hfirst; exact hfirst
    · next h => rw [h] at hfirst; exact cornerBlocker_keeps hkeeps hfirst _

variable (legality context ok) in
/-- A candidate as `_candidate_for` gives it: invalid or proposed. -/
def Candidate (num : CostNumbers κ) (overlay : VirtualBlockOverlay) (current pos : Position)
    (cell : GridCell) (world : GridWorld) (candidate : MovementCandidate) : Prop :=
  (∃ pos' reason, candidate = .invalid pos' reason) ∨
    Proposes world legality num context ok overlay current pos cell candidate

theorem cornerBlocker_invalid {corner : Position} {blocker : MovementCandidate}
    (h : (cornerBlocker world overlay legality num context corner g).1 = some blocker) :
    ∃ pos' reason, blocker = .invalid pos' reason := by
  unfold cornerBlocker at h
  split at h
  · exact ⟨_, _, (Option.some.inj h).symm⟩
  · split at h
    · exact ⟨_, _, (Option.some.inj h).symm⟩
    · split at h
      · cases h
      · split at h
        · exact ⟨_, _, (Option.some.inj h).symm⟩
        · exact ⟨_, _, (Option.some.inj h).symm⟩

theorem diagonalBlocker_invalid {blocker : MovementCandidate}
    (h : (diagonalBlocker world overlay legality num context current pos g).1 = some blocker) :
    ∃ pos' reason, blocker = .invalid pos' reason := by
  unfold diagonalBlocker at h
  split at h
  · cases h
  · split at h
    · next hcorner => exact cornerBlocker_invalid (by rw [hcorner]; exact h)
    · exact cornerBlocker_invalid h

theorem breakCandidate_spec {target : Position} {blockType : String}
    (h : gravityBreakHazard world overlay target blockType = none →
      Proposes world legality num context ok overlay current pos cell
        (.break target blockType context)) :
    Candidate legality context ok num overlay current pos cell world
      (breakCandidate world overlay context target blockType) := by
  unfold breakCandidate
  split
  · exact .inl ⟨_, _, rfl⟩
  · next hsafe => exact .inr (h hsafe)

theorem walkableCandidate_spec (hkeeps : legality.Keeps ok) (hg : ok g)
    (hwalk : cell.walkable = true) (hfoot : Footing world overlay pos cell) :
    Candidate legality context ok num overlay current pos cell world
        (walkableCandidate world overlay legality num context current pos cell g).1 ∧
      ok (walkableCandidate world overlay legality num context current pos cell g).2 := by
  have hsimple : ∀ move : SimpleMove, move ≠ .downward → move ≠ .diagonal →
      Candidate legality context ok num overlay current pos cell world (.simple move pos) :=
    fun move hdown hdiag => .inr (.simple hdown hwalk (fun _ => hfoot) fun h => absurd h hdiag)
  simp only [walkableCandidate]
  split
  · exact ⟨.inl ⟨_, _, rfl⟩, hg⟩
  split
  · exact ⟨hsimple .swim (by decide) (by decide), hg⟩
  split
  · split
    · exact ⟨hsimple .pillar (by decide) (by decide), hg⟩
    · exact ⟨hsimple .ascend (by decide) (by decide), hg⟩
  split
  · split
    · exact ⟨.inr (.fall hwalk hfoot), hg⟩
    · exact ⟨hsimple .descend (by decide) (by decide), hg⟩
  split
  · have hkept : ok (diagonalBlocker world overlay legality num context current pos g).2 :=
      diagonalBlocker_keeps hkeeps hg
    split
    · next h =>
        rw [h] at hkept
        exact ⟨.inl (diagonalBlocker_invalid (congrArg Prod.fst h)), hkept⟩
    · next h =>
        rw [h] at hkept
        refine ⟨.inr (.simple (by decide) hwalk (fun _ => hfoot) fun _ => ⟨g, ?_⟩), hkept⟩
        rw [h]
  · exact ⟨hsimple .walk (by decide) (by decide), hg⟩

theorem evaluate_keeps (hkeeps : legality.Keeps ok) (hg : ok g) :
    ok (evaluate legality num candidate g).2 := by
  cases candidate with
  | «break» pos blockType context =>
      simp only [evaluate, evaluateBreak]
      split <;> exact hkeeps.canBreak hg
  | place pos blockType context face =>
      simp only [evaluate, evaluatePlace]
      split <;> exact hkeeps.canPlace hg
  | _ => exact hg

/-- A break candidate passes when governance allows it. -/
theorem evaluateBreak_passable {blockType : String} :
    (evaluateBreak legality num pos blockType context g).1.passable
      = (legality.canBreak pos blockType context g).1.allowed := by
  simp only [evaluateBreak]
  split
  · next h => exact h.symm
  · next h => exact (Bool.eq_false_of_not_eq_true h).symm

theorem evaluatePlace_passable {blockType : String} {context : PlaceContext}
    {face : Option String} :
    (evaluatePlace legality num pos blockType context face g).1.passable
      = (legality.canPlace pos blockType context g).1.allowed := by
  simp only [evaluatePlace]
  split
  · next h => exact h.symm
  · next h => exact (Bool.eq_false_of_not_eq_true h).symm

theorem openablePassCandidate_open
    (h : openablePassCandidate world overlay pos cell = some candidate) :
    ∃ target, candidate = .open pos cell.blockType (some target) := by
  unfold openablePassCandidate at h
  by_cases hopen : isPassOpenable cell.blockType
  · rw [hopen, if_neg (by simp)] at h
    exact ⟨_, (Option.some.inj h).symm⟩
  · rw [Bool.eq_false_of_not_eq_true hopen, if_pos (by simp)] at h
    cases h

theorem solidCandidate_spec (hkeeps : legality.Keeps ok) (hg : ok g)
    (hsolid : cell.walkable = false) (hfoot : Footing world overlay pos cell) :
    Candidate legality context ok num overlay current pos cell world
        (solidCandidate world overlay legality num context current pos cell g).1 ∧
      ok (solidCandidate world overlay legality num context current pos cell g).2 := by
  have hbreak : Candidate legality context ok num overlay current pos cell world
      (breakCandidate world overlay context pos cell.blockType) :=
    breakCandidate_spec (.breakInto hsolid hfoot)
  unfold solidCandidate
  cases hopen : openablePassCandidate world overlay pos cell with
  | some candidate =>
      obtain ⟨target, rfl⟩ := openablePassCandidate_open hopen
      exact ⟨.inr (.open hsolid target), hg⟩
  | none =>
      by_cases hbelow : pos = current.down
      · have hkept : ok (evaluate legality num (.break pos cell.blockType context) g).2 :=
          evaluate_keeps hkeeps hg
        have hpassable : (evaluate legality num (.break pos cell.blockType context) g).1.passable
            = (legality.canBreak pos cell.blockType context g).1.allowed := evaluateBreak_passable
        rw [if_pos hbelow]
        cases hpass : (evaluate legality num (.break pos cell.blockType context) g).1.passable with
        | true =>
            have hallowed : BreakAllowed legality context ok pos cell.blockType :=
              ⟨g, hg, hpassable.symm.trans hpass⟩
            simp only [hpass, if_true]
            exact ⟨.inr (.downward hbelow hsolid hfoot hallowed), hkept⟩
        | false =>
            simp only [hpass, Bool.false_eq_true, if_false]
            exact ⟨hbreak, hkept⟩
      · rw [if_neg hbelow]
        exact ⟨hbreak, hg⟩

theorem candidateFor_spec (hkeeps : legality.Keeps ok) (hg : ok g) :
    Candidate legality context ok num overlay current pos cell world
        (candidateFor world overlay legality num context current pos cell g).1 ∧
      ok (candidateFor world overlay legality num context current pos cell g).2 := by
  simp only [candidateFor]
  split
  · next hswim =>
      simp only [Bool.and_eq_true, decide_eq_true_eq] at hswim
      exact ⟨.inr (.simple (by decide) hswim.2 (fun h => absurd rfl h) fun h => by cases h), hg⟩
  split
  · next hplace =>
      simp only [Bool.and_eq_true, Bool.not_eq_true'] at hplace
      exact ⟨.inr (.place hplace.1 hplace.2 _), hg⟩
  · next hsupport =>
      split
      · next hblocked => exact ⟨breakCandidate_spec (.breakAbove hblocked), hg⟩
      · next hclear =>
          have hfoot : Footing world overlay pos cell :=
            ⟨fun hneeds => by simpa [hneeds] using hsupport, hclear⟩
          split
          · next hwalk => exact walkableCandidate_spec hkeeps hg hwalk hfoot
          · next hsolid =>
              exact solidCandidate_spec hkeeps hg (Bool.eq_false_of_not_eq_true hsolid) hfoot

/-! ## One step -/

/-- The entry that `plan` makes for a decision, at a cost of its own. -/
def entryFor (world : GridWorld) (current : SearchState) (nextPos : Position) (cell : GridCell)
    (decision : CostDecision κ) (cost : κ) : CameFrom κ where
  prev := current
  decision := { decision with cost := cost }
  blockType := stepBlockType world current.overlay decision nextPos cell
  virtualEffect := virtualEffectFor decision.kind

theorem blockedHeadroom_pos {headroom : Position} {blockType : String}
    (h : blockedHeadroom world overlay pos cell = some (headroom, blockType)) :
    headroom = pos.up := by
  unfold blockedHeadroom at h
  split at h
  · split at h
    · exact (Prod.mk.inj (Option.some.inj h)).1.symm
    · cases h
  · split at h
    · split at h
      · cases h
      · exact (Prod.mk.inj (Option.some.inj h)).1.symm
    · cases h

theorem Position.up_ne (pos : Position) : pos.up ≠ pos := by
  intro h
  have := congrArg (·.2.1) h
  simp [Position.up] at this

theorem Position.down_ne (pos : Position) : pos.down ≠ pos := by
  intro h
  have := congrArg (·.2.1) h
  simp [Position.down] at this

theorem stepBlockType_observed {decision : CostDecision κ} {nextPos : Position}
    (hne : decision.pos ≠ nextPos) (c : GridCell)
    (hc : overlay.cellAt world decision.pos = some c) :
    stepBlockType world overlay decision nextPos cell = c.blockType := by
  simp only [stepBlockType, if_neg hne, hc]
  rfl

theorem nextState_breakInto {current : SearchState} {decision : CostDecision κ}
    (hkind : decision.kind = .break) (hpos : decision.pos = pos) :
    nextStateAfterDecision current pos overlay decision = ⟨pos, overlay⟩ := by
  rw [nextStateAfterDecision, if_neg (by simp [hkind]), if_neg (by simp [hpos]),
    if_neg (by simp [hkind])]

theorem nextState_breakAbove {current : SearchState} {decision : CostDecision κ}
    (hkind : decision.kind = .break) (hpos : decision.pos ≠ pos) :
    nextStateAfterDecision current pos overlay decision = ⟨current.pos, overlay⟩ := by
  rw [nextStateAfterDecision, if_neg (by simp [hkind]), if_pos ⟨hkind, hpos⟩]

theorem nextState_open {current : SearchState} {decision : CostDecision κ}
    (hkind : decision.kind = .open) (hpos : decision.pos = pos) :
    nextStateAfterDecision current pos overlay decision = ⟨current.pos, overlay⟩ := by
  rw [nextStateAfterDecision, if_neg (by simp [hkind]), if_neg (by simp [hkind]),
    if_pos ⟨hkind, hpos⟩]

theorem overlayAfterDecision_open {decision : CostDecision κ} (hkind : decision.kind = .open) :
    overlayAfterDecision overlay decision cell
      = overlay.opened decision.pos cell.blockType (openHeadroomBlockType cell.blockType)
          decision.interactionTarget := by
  simp only [overlayAfterDecision, hkind]

theorem pathStep_openHeadroomBlock {entry : CameFrom κ} (hkind : entry.decision.kind = .open) :
    entry.pathStep.openHeadroomBlock = openHeadroomBlockType entry.pathStep.blockType := by
  simp only [CameFrom.pathStep, hkind, if_true]

theorem stepsTo_of_passable {current : SearchState} (hg : ok g)
    (hnear : pos ∈ neighbors current.pos)
    (hloaded : current.overlay.cellAt world pos = some cell)
    (hcandidate : Candidate legality context ok num current.overlay current.pos pos cell world
      candidate)
    {decision : CostDecision κ} (heval : (evaluate legality num candidate g).1 = decision)
    (hpass : decision.passable = true) (cost : κ) :
    StepsTo world legality num context ok current
      (entryFor world current pos cell decision cost).pathStep
      (nextStateAfterDecision current pos (overlayAfterDecision current.overlay decision cell)
        decision) := by
  obtain ⟨_, _, rfl⟩ | hproposes := hcandidate
  · subst heval
    cases hpass
  · cases hproposes with
    | @simple move hkind hwalk hfoot hcorners =>
        subst heval
        cases move with
        | downward => exact absurd rfl hkind
        | _ =>
            exact .enter rfl hnear hloaded hwalk
              (fun h => hfoot (fun h' => h (by rw [h']; rfl)))
              (fun h => hcorners (by first | rfl | cases h)) (fun h => by cases h)
    | fall hwalk hfoot =>
        by_cases hdeep : maxSafeFall < max 1 cell.fallDepth
        · have hfall : decision.passable = false := by
            rw [← heval]
            simp only [evaluate, evaluateFall, if_pos hdeep]
          rw [hfall] at hpass
          cases hpass
        · simp only [evaluate, evaluateFall, if_neg hdeep] at heval
          subst heval
          exact .enter rfl hnear hloaded hwalk (fun _ => hfoot)
            (fun h => by cases h) (fun _ => Int.not_lt.mp hdeep)
    | downward hbelow hsolid hfoot hallowed =>
        subst heval
        exact .dig rfl hbelow hloaded hsolid hfoot hallowed
    | breakInto hsolid hfoot hsafe =>
        have hallowed := evaluateBreak_passable.symm.trans ((congrArg _ heval).trans hpass)
        simp only [evaluate, evaluateBreak, if_pos hallowed] at heval
        subst heval
        rw [nextState_breakInto (by rfl) (by rfl)]
        exact .breakInto rfl hnear hloaded hsolid (if_pos rfl) hsafe
          ⟨_, hg, hallowed⟩
    | @breakAbove headroom blockType hblocked hsafe =>
        have hallowed := evaluateBreak_passable.symm.trans ((congrArg _ heval).trans hpass)
        simp only [evaluate, evaluateBreak, if_pos hallowed] at heval
        subst heval
        have hne : headroom ≠ pos := by
          rw [blockedHeadroom_pos hblocked]
          exact pos.up_ne
        rw [nextState_breakAbove (by rfl) hne]
        exact .breakAbove rfl hnear hloaded hblocked (stepBlockType_observed hne) hsafe
          ⟨_, hg, hallowed⟩
    | place hneeded hmissing face =>
        have hallowed : (legality.canPlace pos.down "cobblestone" .travel g).1.allowed = true := by
          by_contra hdenied
          simp only [evaluate, evaluatePlace, if_neg hdenied] at heval
          subst heval
          cases hpass
        simp only [evaluate, evaluatePlace, if_pos hallowed] at heval
        subst heval
        exact .place rfl hnear rfl hloaded hneeded hmissing
          (stepBlockType_observed pos.down_ne) ⟨_, hg, hallowed⟩
    | «open» hsolid target =>
        subst heval
        rw [nextState_open (by rfl) (by rfl)]
        generalize hstep : (entryFor world current pos cell
          (evaluate legality num (.open pos cell.blockType (some target)) g).1 cost).pathStep = step
        have hpos : step.pos = pos := by rw [← hstep]; rfl
        have htype : step.blockType = cell.blockType := by rw [← hstep]; exact if_pos rfl
        have hheadroom : step.openHeadroomBlock = openHeadroomBlockType step.blockType := by
          rw [← hstep, pathStep_openHeadroomBlock (by rfl)]
        have htarget : step.interactionTarget = some target := by rw [← hstep]; rfl
        have hopened : overlayAfterDecision current.overlay
            (evaluate legality num (.open pos cell.blockType (some target)) g).1 cell
              = current.overlay.opened step.pos step.blockType step.openHeadroomBlock
                  step.interactionTarget := by
          rw [overlayAfterDecision_open (by rfl), hheadroom, htype, hpos, htarget]
          simp only [evaluate]
        rw [hopened]
        exact .open (by rw [← hstep]; rfl) (hpos ▸ hnear) (hpos ▸ hloaded) hsolid

/-! ## Trails -/

/-- A step of the search between two of its states. -/
structure Move (κ : Type) where
  before : SearchState
  step : PathStep κ
  after : SearchState

variable (world legality num context ok) in
/-- The moves lead from one state to the other. -/
def Trail (s : SearchState) : List (Move κ) → SearchState → Prop
  | [], t => s = t
  | m :: moves, t => m.before = s ∧ StepsTo world legality num context ok s m.step m.after ∧
      Trail m.after moves t

theorem Trail.append {s t u : SearchState} {moves moves' : List (Move κ)}
    (h : Trail world legality num context ok s moves t)
    (h' : Trail world legality num context ok t moves' u) :
    Trail world legality num context ok s (moves ++ moves') u := by
  induction moves generalizing s with
  | nil =>
      obtain rfl : s = t := h
      exact h'
  | cons m moves ih =>
      obtain ⟨hbefore, hstep, hrest⟩ := h
      exact ⟨hbefore, hstep, ih hrest⟩

theorem Trail.steps {s t : SearchState} {moves : List (Move κ)}
    (h : Trail world legality num context ok s moves t) {m : Move κ} (hm : m ∈ moves) :
    StepsTo world legality num context ok m.before m.step m.after := by
  induction moves generalizing s with
  | nil => cases hm
  | cons m' moves ih =>
      obtain ⟨rfl, hstep, hrest⟩ := h
      obtain rfl | hm := List.mem_cons.mp hm
      · exact hstep
      · exact ih hrest hm

/-- A trail ends where it starts or where a move of it leads. -/
theorem Trail.last {s t : SearchState} {moves : List (Move κ)}
    (h : Trail world legality num context ok s moves t) : t = s ∨ ∃ m ∈ moves, m.after = t := by
  induction moves generalizing s with
  | nil => exact .inl (h : s = t).symm
  | cons m moves ih =>
      obtain ⟨-, -, hrest⟩ := h
      obtain rfl | ⟨m', hm', hafter⟩ := ih hrest
      · exact .inr ⟨m, List.mem_cons_self, rfl⟩
      · exact .inr ⟨m', List.mem_cons_of_mem _ hm', hafter⟩

theorem Trail.split {s t : SearchState} {moves moves' : List (Move κ)}
    (h : Trail world legality num context ok s (moves ++ moves') t) :
    ∃ u, Trail world legality num context ok s moves u ∧
      Trail world legality num context ok u moves' t := by
  induction moves generalizing s with
  | nil => exact ⟨s, rfl, h⟩
  | cons m moves ih =>
      obtain ⟨hbefore, hstep, hrest⟩ := h
      obtain ⟨u, hfirst, hsecond⟩ := ih hrest
      exact ⟨u, ⟨hbefore, hstep, hfirst⟩, hsecond⟩

/-- What every step of a trail keeps, its end inherits. -/
theorem Trail.invariant {P : SearchState → Prop} {s t : SearchState} {moves : List (Move κ)}
    (h : Trail world legality num context ok s moves t)
    (hstep : ∀ m ∈ moves, StepsTo world legality num context ok m.before m.step m.after →
      P m.before → P m.after) (hs : P s) : P t := by
  induction moves generalizing s with
  | nil => exact (h : s = t) ▸ hs
  | cons m moves ih =>
      obtain ⟨rfl, hsteps, hrest⟩ := h
      exact ih hrest (fun m' hm' => hstep m' (List.mem_cons_of_mem _ hm'))
        (hstep m List.mem_cons_self hsteps hs)

/-! ## The search -/

/-- The search has given the state a cost. -/
def PlanState.Reached (st : PlanState γ κ) (s : SearchState) : Prop :=
  (st.costSoFar.get? s).isSome

variable (world legality num context ok) in
/-- What the search keeps. -/
structure Traced (start : SearchState) (st : PlanState γ κ) : Prop where
  governance : ok st.governance
  trails : ∀ s, st.Reached s → ∃ moves, Trail world legality num context ok start moves s
  frontier : ∀ entry ∈ st.frontier, st.Reached entry.2.2
  entries : ∀ s entry, st.cameFrom.get? s = some entry →
    StepsTo world legality num context ok entry.prev entry.pathStep s

theorem PlanState.reached_set {st : PlanState γ κ} {s : SearchState} {next : SearchState} {cost : κ}
    (h : ((st.costSoFar.set next cost).get? s).isSome) : s = next ∨ st.Reached s := by
  rw [Dict.get?_set] at h
  by_cases hs : s = next
  · exact .inl hs
  · exact .inr (by rwa [if_neg hs] at h)

theorem PlanState.Reached.set {st : PlanState γ κ} {s : SearchState} (h : st.Reached s) (next : SearchState)
    (cost : κ) : ((st.costSoFar.set next cost).get? s).isSome := by
  rw [Dict.get?_set]
  split
  · rfl
  · exact h

section Search

variable [LinearOrder κ] (goal : NavigationGoal) {params : PlanParams κ}
variable {start current s : SearchState} {st : PlanState γ κ}

theorem relax_extends {pos : Position} {cell : GridCell} {decision : CostDecision κ}
    (h : Traced world legality num params.breakContext ok start st) (hcurrent : st.Reached current)
    (hsteps : ∀ cost, StepsTo world legality num params.breakContext ok current
      (entryFor world current pos cell decision cost).pathStep
      (nextStateAfterDecision current pos (overlayAfterDecision current.overlay decision cell)
        decision)) :
    Traced world legality num params.breakContext ok start
        (relax world num goal params current pos cell decision st) ∧
      ∀ s, st.Reached s → (relax world num goal params current pos cell decision st).Reached s := by
  simp only [relax]
  generalize nextStateAfterDecision current pos
    (overlayAfterDecision current.overlay decision cell) decision = next at hsteps
  generalize (if pos ∈ params.previousSegment
    then num.mul decision.cost params.backtrackCostFactor else decision.cost) = stepCost
  split
  · refine ⟨⟨h.governance, ?_, ?_, ?_⟩, fun s hs => hs.set _ _⟩
    · intro s hs
      obtain rfl | hs := PlanState.reached_set hs
      · obtain ⟨moves, htrail⟩ := h.trails current hcurrent
        have hmove : Trail world legality num params.breakContext ok current
            [⟨current, _, s⟩] s := ⟨rfl, hsteps stepCost, rfl⟩
        exact ⟨_, htrail.append hmove⟩
      · exact h.trails s hs
    · intro entry hentry
      obtain hentry | hentry := List.mem_append.mp hentry
      · exact (h.frontier entry hentry).set _ _
      · rw [List.mem_singleton.mp hentry]
        simp [PlanState.Reached]
    · intro s entry hentry
      rw [Dict.get?_set] at hentry
      split at hentry
      · next hs =>
          rw [hs, ← Option.some.inj hentry]
          exact hsteps _
      · exact h.entries s entry hentry
  · exact ⟨h, fun _ hs => hs⟩

theorem visit_extends {pos : Position} (hkeeps : legality.Keeps ok)
    (h : Traced world legality num params.breakContext ok start st) (hcurrent : st.Reached current)
    (hnear : pos ∈ neighbors current.pos) :
    Traced world legality num params.breakContext ok start
        (visit world legality num goal params current pos st) ∧
      ∀ s, st.Reached s → (visit world legality num goal params current pos st).Reached s := by
  simp only [visit]
  split
  · split
    · exact ⟨h, fun _ hs => hs⟩
    · split
      · exact ⟨⟨h.governance, h.trails, by simp, h.entries⟩, fun _ hs => hs⟩
      · exact ⟨⟨h.governance, h.trails, h.frontier, h.entries⟩, fun _ hs => hs⟩
  · next cell hloaded =>
      have hspec : Candidate legality params.breakContext ok num current.overlay current.pos pos cell world
            (candidateFor world current.overlay legality num params.breakContext current.pos pos
              cell st.governance).1 ∧
          ok (candidateFor world current.overlay legality num params.breakContext current.pos pos
            cell st.governance).2 := candidateFor_spec hkeeps h.governance
      generalize candidateFor world current.overlay legality num params.breakContext current.pos
        pos cell st.governance = proposed at hspec ⊢
      obtain ⟨hcandidate, hg⟩ := hspec
      have hg' : ok (evaluate legality num proposed.1 proposed.2).2 := evaluate_keeps hkeeps hg
      generalize hdecided : evaluate legality num proposed.1 proposed.2 = decided at hg' ⊢
      have hst : Traced world legality num params.breakContext ok start
          { st with governance := decided.2 } := ⟨hg', h.trails, h.frontier, h.entries⟩
      by_cases hpass : decided.1.passable
      · simp only [hpass, if_true]
        exact relax_extends goal hst hcurrent
          (stepsTo_of_passable hg hnear hloaded hcandidate (congrArg Prod.fst hdecided) hpass)
      · simp only [hpass]
        exact ⟨hst, fun _ hs => hs⟩

theorem visitAll_extends (hkeeps : legality.Keeps ok) {near : List Position}
    (hnear : ∀ pos ∈ near, pos ∈ neighbors current.pos)
    (h : Traced world legality num params.breakContext ok start st)
    (hcurrent : st.Reached current) :
    Traced world legality num params.breakContext ok start
        (visitAll world legality num goal params current near st) ∧
      ∀ s, st.Reached s →
        (visitAll world legality num goal params current near st).Reached s := by
  induction near generalizing st with
  | nil => exact ⟨h, fun _ hs => hs⟩
  | cons pos near ih =>
      obtain ⟨hvisit, hreached⟩ := visit_extends goal hkeeps h hcurrent
        (hnear pos List.mem_cons_self)
      simp only [visitAll]
      split
      · exact ⟨hvisit, hreached⟩
      · obtain ⟨hrest, hreached'⟩ := ih (fun pos' h' => hnear pos' (List.mem_cons_of_mem _ h'))
          hvisit (hreached current hcurrent)
        exact ⟨hrest, fun s hs => hreached' s (hreached s hs)⟩

theorem notePopped_traced (origin : Position) (current : SearchState)
    (h : Traced world legality num params.breakContext ok start st) :
    Traced world legality num params.breakContext ok start
        (notePopped world num goal params origin current st) ∧
      (notePopped world num goal params origin current st).costSoFar = st.costSoFar := by
  simp only [notePopped]
  split
  · exact ⟨⟨h.governance, h.trails, h.frontier, h.entries⟩, rfl⟩
  · exact ⟨h, rfl⟩

/-- The search keeps its trails, and what it finds it has reached. -/
theorem search_traced (hkeeps : legality.Keeps ok) (origin : Position) (left : Nat)
    (h : Traced world legality num params.breakContext ok start st) :
    Traced world legality num params.breakContext ok start
        (search world legality num goal params origin left st).2 ∧
      ∀ s, (search world legality num goal params origin left st).1 = some s →
        (search world legality num goal params origin left st).2.Reached s := by
  induction left generalizing st with
  | zero => exact ⟨h, by simp [search]⟩
  | succ left ih =>
      simp only [search]
      split
      · exact ⟨h, by simp⟩
      · next popped hpopped =>
          have hmem : popped ∈ st.frontier := List.argmin_mem hpopped
          have hreached : st.Reached popped.2.2 := h.frontier popped hmem
          have hst : Traced world legality num params.breakContext ok start
              { st with frontier := st.frontier.erase popped, expanded := st.expanded + 1 } :=
            ⟨h.governance, h.trails, fun e he => h.frontier e (List.mem_of_mem_erase he), h.entries⟩
          obtain ⟨hnoted, hcosts⟩ := notePopped_traced goal origin popped.2.2 hst
          generalize notePopped world num goal params origin popped.2.2
            { st with frontier := st.frontier.erase popped, expanded := st.expanded + 1 } = noted
            at hnoted hcosts ⊢
          have hcurrent : noted.Reached popped.2.2 := by
            rw [PlanState.Reached, hcosts]
            exact hreached
          split
          · refine ⟨hnoted, fun s hs => ?_⟩
            rw [← Option.some.inj hs]
            exact hcurrent
          · have hvisited := (visitAll_extends goal hkeeps (fun _ h => h) hnoted hcurrent).1
            split
            · exact ⟨hvisited, by simp⟩
            · exact ih hvisited

omit [LinearOrder κ] in
theorem initial_traced {origin : Position} {g : γ} (hg : ok g) :
    Traced world legality num params.breakContext ok ⟨origin, ⟨[]⟩⟩
      (PlanState.initial num origin g) := by
  have hreached : ∀ s, (PlanState.initial num origin g).Reached s → s = ⟨origin, ⟨[]⟩⟩ := by
    intro s hs
    simp only [PlanState.Reached, PlanState.initial, Dict.get?_cons] at hs
    split at hs
    · next h => exact h.symm
    · cases hs
  refine ⟨hg, fun s hs => ⟨[], (hreached s hs).symm⟩, ?_, fun s entry h => by cases h⟩
  intro entry hentry
  obtain rfl := List.mem_singleton.mp hentry
  simp [PlanState.Reached, PlanState.initial, Dict.get?_cons]

variable (world legality num params) in
/-- Where the loop of `plan` ends. -/
def explored (origin : Position) (g : γ) : PlanState γ κ :=
  (search world legality num goal params origin params.maxExpansions.toNat
    (.initial num origin g)).2

/-- Every state the search gives a cost lies at the end of a trail. -/
theorem explored_trails (hkeeps : legality.Keeps ok) {origin : Position} {g : γ} (hg : ok g)
    (hs : (explored world legality num goal params origin g).Reached s) :
    ∃ moves, Trail world legality num params.breakContext ok ⟨origin, ⟨[]⟩⟩ moves s :=
  (search_traced goal hkeeps origin _ (initial_traced hg)).1.trails s hs

omit [LinearOrder κ] in
/-- The walk back over `came_from` puts a trail before the one it has. -/
theorem buildPath_trail {cameFrom : Dict SearchState (CameFrom κ)}
    (hentries : ∀ s entry, cameFrom.get? s = some entry →
      StepsTo world legality num context ok entry.prev entry.pathStep s)
    {left : Nat} {moves : List (Move κ)} {path : List (PathStep κ)}
    (htrail : Trail world legality num context ok current moves s)
    (h : buildPath cameFrom start left current (moves.map (·.step)) = some path) :
    ∃ moves', Trail world legality num context ok start moves' s ∧
      path = moves'.map (·.step) := by
  induction left generalizing current moves with
  | zero =>
      unfold buildPath at h
      split at h
      · next hstart => exact ⟨moves, hstart ▸ htrail, (Option.some.inj h).symm⟩
      · simp at h
  | succ left ih =>
      unfold buildPath at h
      split at h
      · next hstart => exact ⟨moves, hstart ▸ htrail, (Option.some.inj h).symm⟩
      · cases hentry : cameFrom.get? current with
        | none => simp [hentry] at h
        | some entry =>
            simp only [hentry] at h
            have hmove : Trail world legality num context ok entry.prev
                (⟨entry.prev, entry.pathStep, current⟩ :: moves) s :=
              ⟨rfl, hentries current entry hentry, htrail⟩
            exact ih hmove h

omit [LinearOrder κ] in
theorem buildResult_trail {p : Position}
    (h : Traced world legality num params.breakContext ok ⟨p, ⟨[]⟩⟩ st)
    {success : Bool} {reason : String} {result : PathResult κ}
    (hresult : buildResult num p s st success reason = some result) :
    result.pathStart = some p ∧
      ∃ moves, Trail world legality num params.breakContext ok ⟨p, ⟨[]⟩⟩ moves s ∧
        result.path = moves.map (·.step) := by
  obtain ⟨path, hpath, rfl⟩ := Option.map_eq_some_iff.mp hresult
  have hdone : Trail world legality num params.breakContext ok s [] s := rfl
  exact ⟨rfl, buildPath_trail h.entries hdone hpath⟩

theorem planResult_trail {origin : Position} {found : Option SearchState}
    (h : Traced world legality num params.breakContext ok ⟨origin, ⟨[]⟩⟩ st)
    {result : PathResult κ} (hresult : planResult num params origin found st = some result) :
    (result.path ≠ [] → result.pathStart = some origin) ∧
      ∃ moves s, Trail world legality num params.breakContext ok ⟨origin, ⟨[]⟩⟩ moves s ∧
        result.path = moves.map (·.step) := by
  have hempty : ∀ failed : PathResult κ, failed.path = [] → some failed = some result →
      (result.path ≠ [] → result.pathStart = some origin) ∧
        ∃ moves s, Trail world legality num params.breakContext ok ⟨origin, ⟨[]⟩⟩ moves s ∧
          result.path = moves.map (·.step) := by
    intro failed hpath hfailed
    rw [← Option.some.inj hfailed, hpath]
    exact ⟨fun hne => absurd rfl hne, [], _, rfl, rfl⟩
  simp only [planResult] at hresult
  split at hresult
  · obtain ⟨hstart, moves, htrail⟩ := buildResult_trail h hresult
    exact ⟨fun _ => hstart, moves, _, htrail⟩
  · split at hresult
    · split at hresult
      · split at hresult
        · obtain ⟨hstart, moves, htrail⟩ := buildResult_trail h hresult
          exact ⟨fun _ => hstart, moves, _, htrail⟩
        · cases hresult
      · exact hempty _ rfl hresult
    · exact hempty _ rfl hresult

/-- The steps of the path that `plan` returns are those of a trail. -/
theorem plan_trail (hkeeps : legality.Keeps ok) {origin : Position} {g g' : γ} (hg : ok g)
    {result : PathResult κ}
    (h : plan world legality num goal params origin g = .ok (some result, g')) :
    ok g' ∧ (result.path ≠ [] → result.pathStart = some origin) ∧
      ∃ moves s, Trail world legality num params.breakContext ok ⟨origin, ⟨[]⟩⟩ moves s ∧
        result.path = moves.map (·.step) := by
  unfold plan at h
  split at h
  · cases h
  · split at h
    · cases h
    · have hinitial : Traced world legality num params.breakContext ok ⟨origin, ⟨[]⟩⟩
          (PlanState.initial num origin g) := initial_traced hg
      have htraced := (search_traced goal hkeeps origin params.maxExpansions.toNat hinitial).1
      generalize search world legality num goal params origin params.maxExpansions.toNat
        (.initial num origin g) = outcome at h htraced
      obtain ⟨hresult, rfl⟩ := Prod.mk.inj (Except.ok.inj h)
      exact ⟨htraced.governance, planResult_trail htraced hresult⟩

end Search

end Steps

end MineBot
