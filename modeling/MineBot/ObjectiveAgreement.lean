import MineBot.ObjectiveWriting
import MineBot.Results

/-!
# The encoder and the client agree

`MineBotClientBody.start` reads back what `_objective_for` writes for a
wish. So the two agree on a wish exactly when `int` rounds its coordinates
down, its names have no colons and its distances fit (`objective_agrees`).
-/

namespace MineBot

namespace Objective

open Double

/-! ## Positions and goals -/

section Goals

variable {p : Point} {text : String}

theorem isInt32_of_nonneg {n : Int} (h : 0 ≤ n) : IsInt32 n ↔ n < 2 ^ 31 :=
  ⟨fun hn => hn.2, fun hn => ⟨by omega, hn⟩⟩

theorem radius_nonneg (q : ℚ) : 0 ≤ radius q := le_max_left _ _

theorem parsePos_trunc (h : p.InRange) :
    parsePos (toString p.trunc.x) (toString p.trunc.y) (toString p.trunc.z) = .ok p.trunc := by
  have hx : IsInt32 p.trunc.x := isInt32_trunc h.1
  have hy : IsInt32 p.trunc.y := isInt32_trunc h.2.1
  have hz : IsInt32 p.trunc.z := isInt32_trunc h.2.2
  rw [parsePos, parseInt_of_isInt32 hx, parseInt_of_isInt32 hy, parseInt_of_isInt32 hz]
  rfl

theorem trunc_eq_floor_point : p.trunc = p.floor ↔ p.Whole := by
  rw [Point.trunc, Point.floor, BlockPos.mk.injEq, trunc_eq_floor_iff, trunc_eq_floor_iff,
    trunc_eq_floor_iff, Point.Whole]

/-- What is read for the text of a goal, if its radius fits. -/
def GoalWish.got : GoalWish → GoalToken
  | .block p => .block p.trunc
  | .xz x z => .xz (trunc x) (trunc z)
  | .near p range => .near p.trunc range.radius
  | .yLevel y => .yLevel (trunc y)

def GoalWish.Fits : GoalWish → Prop
  | .near _ range => range.radius < 2 ^ 31
  | _ => True

/-- A goal is kept when its radius fits and what is read is what is meant. -/
theorem GoalWish.kept_iff (g : GoalWish) : g.Kept ↔ g.Fits ∧ g.got = g.meant := by
  cases g with
  | block p =>
      simp only [Kept, Fits, got, meant, true_and, GoalToken.block.injEq, trunc_eq_floor_point]
  | xz x z =>
      simp only [Kept, Fits, got, meant, true_and, GoalToken.xz.injEq, trunc_eq_floor_iff]
  | near p range =>
      simp only [Kept, Fits, got, meant, GoalToken.near.injEq, and_true, trunc_eq_floor_point]
      exact and_comm
  | yLevel y =>
      simp only [Kept, Fits, got, meant, true_and, GoalToken.yLevel.injEq, trunc_eq_floor_iff]

/-- The radius that is written for a goal fits when the goal's does, and is
then the same. -/
theorem parseNear_radius {range : Number} {q : ℚ} (hp : p.InRange) (hq : range.toFloat = some q) :
    (range.radius < 2 ^ 31 → parseNear (toString p.trunc.x) (toString p.trunc.y)
        (toString p.trunc.z) (toString (radius q)) = .ok (.near p.trunc range.radius)) ∧
      (¬ range.radius < 2 ^ 31 → parseNear (toString p.trunc.x) (toString p.trunc.y)
        (toString p.trunc.z) (toString (radius q)) = .error .numberFormat) := by
  have hnonneg : 0 ≤ range.radius := radius_nonneg _
  rw [parseNear, parsePos_trunc hp]
  rcases radius_toFloat hq with hsame | ⟨hbig, hbig'⟩
  · rw [hsame]
    refine ⟨fun hfits => ?_, fun hfits => ?_⟩
    · rw [parseInt_of_isInt32 ((isInt32_of_nonneg hnonneg).mpr hfits)]
      rfl
    · rw [parseInt_of_not_isInt32 (mt (isInt32_of_nonneg hnonneg).mp hfits)]
      rfl
  · refine ⟨fun hfits => absurd hfits (by omega), fun _ => ?_⟩
    rw [parseInt_of_not_isInt32 (mt (isInt32_of_nonneg (radius_nonneg q)).mp (by omega))]
    rfl

theorem parseBlock_trunc (hp : p.InRange) :
    parseBlock (toString p.trunc.x) (toString p.trunc.y) (toString p.trunc.z)
      = .ok (.block p.trunc) := by
  rw [parseBlock, parsePos_trunc hp]
  rfl

theorem parseXZ_trunc {x z : ℚ} (hx : InRange x) (hz : InRange z) :
    parseXZ (toString (trunc x)) (toString (trunc z)) = .ok (.xz (trunc x) (trunc z)) := by
  rw [parseXZ, parseInt_of_isInt32 (isInt32_trunc hx), parseInt_of_isInt32 (isInt32_trunc hz)]
  rfl

theorem parseYLevel_trunc {y : ℚ} (hy : InRange y) :
    parseYLevel (toString (trunc y)) = .ok (.yLevel (trunc y)) := by
  rw [parseYLevel, parseInt_of_isInt32 (isInt32_trunc hy)]
  rfl

@[simp] theorem colon_toString (n : Int) : ':' ∉ (toString n).toList :=
  not_mem_toString n (by decide) (by decide)

theorem colon_fields (p : BlockPos) : ∀ f ∈ p.fields, ':' ∉ f.toList := by
  intro f hf
  simp only [BlockPos.fields, List.mem_cons, List.not_mem_nil, or_false] at hf
  rcases hf with rfl | rfl | rfl
  · exact colon_toString _
  · exact colon_toString _
  · exact colon_toString _

/-- A record that starts with a kind, and the fields behind it. -/
theorem split_kind {kind : String} {fields : List String} (hkind : ':' ∉ kind.toList)
    (h : ∀ f ∈ fields, ':' ∉ f.toList) : split ':' (record (kind :: fields)) = kind :: fields :=
  split_record (List.cons_ne_nil _ _) (List.forall_mem_cons.mpr ⟨hkind, h⟩)

theorem split_nearText (p : BlockPos) (r : Int) :
    split ':' (nearText p r) = "near" :: p.fields ++ [toString r] :=
  split_kind (by decide) (List.forall_mem_append.mpr
    ⟨colon_fields p, List.forall_mem_singleton.mpr (colon_toString r)⟩)

theorem split_blockText (p : BlockPos) : split ':' (blockText p) = "block" :: p.fields :=
  split_kind (by decide) (colon_fields p)

theorem split_xzText (x z : Int) : split ':' (xzText x z) = ["xz", toString x, toString z] :=
  split_kind (by decide) (List.forall_mem_cons.mpr
    ⟨colon_toString x, List.forall_mem_singleton.mpr (colon_toString z)⟩)

theorem split_yText (y : Int) : split ':' (yText y) = ["y", toString y] :=
  split_kind (by decide) (List.forall_mem_singleton.mpr (colon_toString y))

/-- A token of a composite is read as its own goal. -/
theorem parseGoalToken_writes {g : GoalWish} (hdom : g.Admissible) (h : g.Writes text) :
    (g.Fits → parseGoalToken text = .ok g.got) ∧ (¬ g.Fits → ∃ e, parseGoalToken text = .error e) := by
  cases g with
  | block p =>
      cases h
      rw [parseGoalToken, split_blockText]
      refine ⟨fun _ => ?_, fun hno => absurd trivial hno⟩
      show catching _ (parseBlock ..) = _
      rw [parseBlock_trunc hdom]
      rfl
  | xz x z =>
      cases h
      rw [parseGoalToken, split_xzText]
      refine ⟨fun _ => ?_, fun hno => absurd trivial hno⟩
      show catching _ (parseXZ ..) = _
      rw [parseXZ_trunc hdom.1 hdom.2]
      rfl
  | near p range =>
      obtain ⟨q, hq, rfl⟩ := h
      obtain ⟨hok, hno⟩ := parseNear_radius hdom.1 hq
      rw [parseGoalToken, split_nearText]
      refine ⟨fun hfits => ?_, fun hfits => ?_⟩
      · show catching _ (parseNear ..) = _
        rw [hok hfits]
        rfl
      · refine ⟨.illegalArgument "invalid_goal_coordinates", ?_⟩
        show catching _ (parseNear ..) = _
        rw [hno hfits]
        rfl
  | yLevel y =>
      cases h
      rw [parseGoalToken, split_yText]
      refine ⟨fun _ => ?_, fun hno => absurd trivial hno⟩
      show catching _ (parseYLevel ..) = _
      rw [parseYLevel_trunc hdom]
      rfl

/-- The top level reads a goal as a token of its own does. -/
theorem startCandidate_goal {g : GoalWish} (hdom : g.Admissible) (h : g.Writes text) :
    (g.Fits → ∃ kind, startCandidate text = .ok { kind, goal := some (.token g.got) }) ∧
      (¬ g.Fits → ∃ e, startCandidate text = .error e) := by
  cases g with
  | block p =>
      cases h
      refine ⟨fun _ => ⟨"block", ?_⟩, fun hno => absurd trivial hno⟩
      rw [startCandidate, split_blockText]
      show startGoal "block" (parseGoalObjective _) = _
      rw [parseGoalObjective, split_blockText]
      show startGoal "block" (catching _ ((parseBlock ..).map .token)) = _
      rw [parseBlock_trunc hdom]
      rfl
  | xz x z =>
      cases h
      refine ⟨fun _ => ⟨"xz", ?_⟩, fun hno => absurd trivial hno⟩
      rw [startCandidate, split_xzText]
      show startGoal "xz" ((parseXZ ..).map .token) = _
      rw [parseXZ_trunc hdom.1 hdom.2]
      rfl
  | near p range =>
      obtain ⟨q, hq, rfl⟩ := h
      obtain ⟨hok, hno⟩ := parseNear_radius hdom.1 hq
      rw [startCandidate, split_nearText]
      refine ⟨fun hfits => ⟨"near", ?_⟩, fun hfits => ⟨.numberFormat, ?_⟩⟩
      · show startGoal "near" ((parseNear ..).map .token) = _
        rw [hok hfits]
        rfl
      · show startGoal "near" ((parseNear ..).map .token) = _
        rw [hno hfits]
        rfl
  | yLevel y =>
      cases h
      refine ⟨fun _ => ⟨"y", ?_⟩, fun hno => absurd trivial hno⟩
      rw [startCandidate, split_yText]
      show startGoal "y" (parseGoalObjective _) = _
      rw [parseGoalObjective, split_yText]
      show startGoal "y" (catching _ ((parseYLevel ..).map .token)) = _
      rw [parseYLevel_trunc hdom]
      rfl

/-! ### Composites -/

/-- A text joined of others has only their characters and the separator's. -/
theorem not_mem_intercalate {c : Char} {separator : String} {texts : List String}
    (hs : c ∉ separator.toList) (h : ∀ t ∈ texts, c ∉ t.toList) :
    c ∉ (separator.intercalate texts).toList := by
  induction texts with
  | nil => exact List.not_mem_nil
  | cons t texts ih =>
      have ht : c ∉ t.toList := h t List.mem_cons_self
      have hrest := ih fun u hu => h u (List.mem_cons_of_mem _ hu)
      cases texts with
      | nil => simpa using ht
      | cons u texts =>
          rw [String.toList_intercalate] at hrest ⊢
          simp only [List.map_cons, List.intercalate_cons_cons, List.mem_append] at hrest ⊢
          rintro ((hc | hc) | hc)
          · exact ht hc
          · exact hs hc
          · exact hrest hc

theorem bar_fields (p : BlockPos) : ∀ f ∈ p.fields, '|' ∉ f.toList := by
  intro f hf
  simp only [BlockPos.fields, List.mem_cons, List.not_mem_nil, or_false] at hf
  rcases hf with rfl | rfl | rfl <;> exact not_mem_toString _ (by decide) (by decide)

/-- The text of a goal has no bar. -/
theorem GoalWish.bar_writes {g : GoalWish} (h : g.Writes text) : '|' ∉ text.toList := by
  have hrecord : ∀ {kind : String} {fields : List String}, '|' ∉ kind.toList →
      (∀ f ∈ fields, '|' ∉ f.toList) → '|' ∉ (record (kind :: fields)).toList :=
    fun hkind hfields => not_mem_intercalate (by decide) (List.forall_mem_cons.mpr ⟨hkind, hfields⟩)
  have hint : ∀ n : Int, '|' ∉ (toString n).toList := fun n =>
    not_mem_toString n (by decide) (by decide)
  cases g with
  | block p =>
      cases h
      exact hrecord (by decide) (bar_fields _)
  | xz x z =>
      cases h
      exact hrecord (by decide) (List.forall_mem_cons.mpr
        ⟨hint _, List.forall_mem_singleton.mpr (hint _)⟩)
  | near p range =>
      obtain ⟨q, -, rfl⟩ := h
      exact hrecord (by decide) (List.forall_mem_append.mpr
        ⟨bar_fields _, List.forall_mem_singleton.mpr (hint _)⟩)
  | yLevel y =>
      cases h
      exact hrecord (by decide) (List.forall_mem_singleton.mpr (hint _))

theorem bar_texts {goals : List GoalWish} {texts : List String}
    (h : List.Forall₂ GoalWish.Writes goals texts) : ∀ t ∈ texts, '|' ∉ t.toList := by
  induction h with
  | nil => exact fun t ht => absurd ht List.not_mem_nil
  | cons hg _ ih => exact List.forall_mem_cons.mpr ⟨GoalWish.bar_writes hg, ih⟩

theorem mapM_parseGoalToken {goals : List GoalWish} {texts : List String}
    (hdom : ∀ g ∈ goals, g.Admissible) (h : List.Forall₂ GoalWish.Writes goals texts) :
    ((∀ g ∈ goals, g.Fits) → texts.mapM parseGoalToken = .ok (goals.map GoalWish.got)) ∧
      (¬ (∀ g ∈ goals, g.Fits) → ∃ e, texts.mapM parseGoalToken = .error e) := by
  induction h with
  | nil => exact ⟨fun _ => rfl, fun hno => absurd (fun g hg => absurd hg List.not_mem_nil) hno⟩
  | @cons g t goals texts hg hgs ih =>
      obtain ⟨hok, hno⟩ := parseGoalToken_writes (hdom _ List.mem_cons_self) hg
      obtain ⟨hoks, hnos⟩ := ih fun g hg => hdom g (List.mem_cons_of_mem _ hg)
      rw [List.mapM_cons]
      refine ⟨fun hfits => ?_, fun hfits => ?_⟩
      · obtain ⟨hfit, hrest⟩ := List.forall_mem_cons.mp hfits
        rw [hok hfit, hoks hrest]
        rfl
      · by_cases hfit : g.Fits
        · rw [hok hfit]
          obtain ⟨e, he⟩ := hnos fun hrest => hfits (List.forall_mem_cons.mpr ⟨hfit, hrest⟩)
          exact ⟨e, by rw [he]; rfl⟩
        · obtain ⟨e, he⟩ := hno hfit
          exact ⟨e, by rw [he]; rfl⟩

theorem startCandidate_any {goals : List GoalWish} {texts : List String}
    (hdom : ∀ g ∈ goals, g.Admissible) (h : List.Forall₂ GoalWish.Writes goals texts)
    (hlow : 1 ≤ goals.length) (hhigh : goals.length ≤ 64) :
    ((∀ g ∈ goals, g.Fits) → startCandidate ("any:" ++ "|".intercalate texts)
        = .ok { kind := "any", goal := some (.composite (goals.map GoalWish.got)) }) ∧
      (¬ (∀ g ∈ goals, g.Fits) →
        ∃ e, startCandidate ("any:" ++ "|".intercalate texts) = .error e) := by
  have hbars := bar_texts h
  have hlength := h.length_eq
  have hne : texts ≠ [] := by
    rintro rfl
    rw [List.length_nil] at hlength
    omega
  have htokens : split '|' (.ofList (("any:" ++ "|".intercalate texts).toList.drop 4)) = texts := by
    have hdrop : (("any:" ++ "|".intercalate texts).toList.drop 4) = ("|".intercalate texts).toList := by
      rw [String.toList_append]
      rfl
    rw [hdrop, String.ofList_toList]
    exact split_join hne hbars
  have hsplit : split ':' ("any:" ++ "|".intercalate texts)
      = "any" :: split ':' ("|".intercalate texts) := by
    have happ : ("any:" ++ "|".intercalate texts).toList
        = "any".toList ++ ':' :: ("|".intercalate texts).toList := by
      rw [String.toList_append]
      rfl
    rw [split, happ, List.splitOn_append_cons_self_of_not_mem (by decide)]
    rfl
  have hstarts : "any:".toList.isPrefixOf ("any:" ++ "|".intercalate texts).toList = true := by
    rw [String.toList_append, List.isPrefixOf_iff_prefix]
    exact List.prefix_append _ _
  obtain ⟨hok, hno⟩ := mapM_parseGoalToken hdom h
  have hcandidate : startCandidate ("any:" ++ "|".intercalate texts)
      = startGoal "any" (parseGoalObjective ("any:" ++ "|".intercalate texts)) := by
    rw [startCandidate, hsplit]
    rfl
  have hcomposite : parseGoalObjective ("any:" ++ "|".intercalate texts)
      = catching "invalid_goal_coordinates" (parseComposite ("any:" ++ "|".intercalate texts)) := by
    rw [parseGoalObjective, hsplit]
    simp only [hstarts, if_true]
  have hsize : ¬ (texts.length < 1 ∨ 64 < texts.length) := by omega
  rw [hcandidate, hcomposite, parseComposite]
  simp only [htokens, if_neg hsize]
  refine ⟨fun hfits => ?_, fun hfits => ?_⟩
  · rw [hok hfits]
    rfl
  · obtain ⟨e, he⟩ := hno hfits
    rw [he]
    cases e with
    | numberFormat => exact ⟨_, rfl⟩
    | illegalArgument message => exact ⟨_, rfl⟩

end Goals

/-! ## Names of a run -/

section Colons

variable {text : String} {c : Candidate}

/-- No name of a run has a colon. -/
structure Candidate.Colonless (c : Candidate) : Prop where
  target : ∀ t, c.target = some t → ':' ∉ t.toList
  targets : ∀ t ∈ c.targets, ':' ∉ t.toList
  item : ∀ i, c.item = some i → ':' ∉ i.toList

/-- A run whose only name is its target. -/
theorem Candidate.Colonless.of_target {target : Option String} (ht : ∀ t, target = some t → ':' ∉ t.toList)
    (htarget : c.target = target) (htargets : c.targets = []) (hitem : c.item = none) :
    c.Colonless where
  target t heq := ht t (htarget.symm.trans heq)
  targets t hmem := by
    rw [htargets] at hmem
    exact absurd hmem List.not_mem_nil
  item i heq := by
    rw [hitem] at heq
    cases heq

theorem Candidate.Colonless.of_none (htarget : c.target = none) (htargets : c.targets = [])
    (hitem : c.item = none) : c.Colonless := by
  refine .of_target (fun t ht => ?_) htarget htargets hitem
  cases ht

theorem colonless_goal {kind : String} {goal : Except StartError Goal}
    (h : startGoal kind goal = .ok c) : c.Colonless := by
  obtain ⟨goal, -, h⟩ := bind_eq_ok.mp h
  cases h
  exact .of_none rfl rfl rfl

theorem colonless_mine {quantity blocks item : String} (hblocks : ':' ∉ blocks.toList)
    (hitem : ':' ∉ item.toList) (h : startMine quantity blocks item = .ok c) : c.Colonless := by
  obtain ⟨q, -, h⟩ := bind_eq_ok.mp h
  unfold mineCandidate at h
  split at h
  · cases h
  · cases h
    have htargets : ∀ t ∈ split ',' blocks, ':' ∉ t.toList := fun t ht hc =>
      hblocks ((of_mem_split ht).2 hc)
    exact ⟨fun t ht => htargets t (List.mem_of_head? ht), htargets, fun i hi =>
      Option.some.inj hi ▸ hitem⟩

theorem colonless_follow {kind target : String} {rest : List String} (ht : ':' ∉ target.toList)
    (h : startFollow kind target rest = .ok c) : c.Colonless := by
  obtain ⟨range, -, h⟩ := bind_eq_ok.mp h
  obtain ⟨distance, -, h⟩ := bind_eq_ok.mp h
  obtain ⟨checked, -, h⟩ := bind_eq_ok.mp h
  cases h
  refine ⟨fun t heq => Option.some.inj heq ▸ ht, fun _ hmem => absurd hmem List.not_mem_nil,
    fun i hi => ?_⟩
  dsimp only at hi
  split at hi
  · exact Option.some.inj hi ▸ ht
  · cases hi

theorem colonless_build {block x y z sx sy sz : String} (hb : ':' ∉ block.toList)
    (h : startBuild block x y z sx sy sz = .ok c) : c.Colonless := by
  obtain ⟨anchor, -, h⟩ := bind_eq_ok.mp h
  obtain ⟨sx, -, h⟩ := bind_eq_ok.mp h
  obtain ⟨sy, -, h⟩ := bind_eq_ok.mp h
  obtain ⟨sz, -, h⟩ := bind_eq_ok.mp h
  unfold buildCandidate at h
  split at h
  · cases h
  · cases h
    exact .of_target (fun t heq => Option.some.inj heq ▸ hb) rfl rfl rfl

/-- The branches for one to four fields behind the kind. -/
theorem colonless_start (h : startCandidate text = .ok c) : c.Colonless := by
  have hfields : ∀ f ∈ split ':' text, ':' ∉ f.toList := fun f hf => (of_mem_split hf).1
  unfold startCandidate at h
  generalize split ':' text = parts at h hfields
  cases parts with
  | nil => cases h
  | cons kind fields =>
      have hf : ∀ f ∈ fields, ':' ∉ f.toList := fun f hf => hfields f (List.mem_cons_of_mem _ hf)
      dsimp only at h
      split at h
      · exact colonless_goal h
      · split at h
        · next a =>
            have ha : ':' ∉ a.toList := hf a (by simp)
            have htarget : ∀ t, some a = some t → ':' ∉ t.toList := fun t heq =>
              Option.some.inj heq ▸ ha
            split_ifs at h
            · cases h
              exact ⟨htarget, List.forall_mem_singleton.mpr ha, htarget⟩
            · cases h
              exact .of_target htarget rfl rfl rfl
            · exact colonless_follow ha h
            · cases h
        · next a b =>
            have ha : ':' ∉ a.toList := hf a (by simp)
            have hb : ':' ∉ b.toList := hf b (by simp)
            split_ifs at h
            · cases h
              exact ⟨fun t heq => Option.some.inj heq ▸ ha, List.forall_mem_singleton.mpr ha,
                fun t heq => Option.some.inj heq ▸ hb⟩
            · exact colonless_goal h
            · obtain ⟨x, -, h⟩ := bind_eq_ok.mp h
              obtain ⟨z, -, h⟩ := bind_eq_ok.mp h
              cases h
              exact .of_none rfl rfl rfl
            · exact colonless_follow ha h
            · cases h
        · next a b d =>
            have ha : ':' ∉ a.toList := hf a (by simp)
            have hb : ':' ∉ b.toList := hf b (by simp)
            have hd : ':' ∉ d.toList := hf d (by simp)
            split_ifs at h
            · exact colonless_goal h
            · exact colonless_mine hb hd h
            · exact colonless_follow ha h
            · obtain ⟨p, -, rfl⟩ := map_eq_ok.mp h
              exact .of_none rfl rfl rfl
            · cases h
        · next a b d e =>
            split_ifs at h
            · exact colonless_goal h
            · obtain ⟨range, -, h⟩ := bind_eq_ok.mp h
              obtain ⟨anchor, -, h⟩ := bind_eq_ok.mp h
              cases h
              exact .of_none rfl rfl rfl
            · cases h
        · split_ifs at h
          · obtain ⟨anchor, -, h⟩ := bind_eq_ok.mp h
            obtain ⟨stop, -, h⟩ := bind_eq_ok.mp h
            cases h
            exact .of_none rfl rfl rfl
          · cases h
        · next a b d e f g i =>
            split_ifs at h
            · exact colonless_build (hf a (by simp)) h
            · cases h
        · cases h

end Colons

/-! ## Names of a wish -/

section Wishes

variable {text : String} {c : Candidate}

/-- A name that a run has, up to `minecraft:`, is plain. -/
theorem plain_of_colonless {t name : String} (ht : ':' ∉ t.toList) (h : plain t = plain name) :
    Plain name := by
  rw [Plain, ← h, plain_of_not_mem ht]
  exact ht

theorem plain_of_map {o : Option String} {name : String} (ho : ∀ t, o = some t → ':' ∉ t.toList)
    (h : o.map plain = some (plain name)) : Plain name := by
  obtain ⟨t, ht, heq⟩ := Option.map_eq_some_iff.mp h
  exact plain_of_colonless (ho t ht) heq

/-- What a run is meant for has plain names. -/
theorem Wish.plain_of_meant {w : Wish} (hc : c.Colonless) (h : w.Meant c) :
    match w with
    | .mine blocks item _ => (∀ block ∈ blocks, Plain block) ∧ Plain item
    | .get name | .pickup name | .build name _ _ _ _ | .follow name _ => Plain name
    | _ => True := by
  cases w with
  | mine blocks item quantity =>
      obtain ⟨-, -, htargets, hitem, -⟩ := h
      refine ⟨fun block hblock => ?_, plain_of_map hc.item hitem⟩
      have hmem : plain block ∈ c.targets.map plain := by
        rw [htargets]
        exact List.mem_map_of_mem hblock
      obtain ⟨t, ht, heq⟩ := List.mem_map.mp hmem
      exact plain_of_colonless (hc.targets t ht) heq
  | get block => exact plain_of_map hc.target h.2.2
  | pickup item => exact plain_of_map hc.target h.2.2.1
  | build block anchor sx sy sz => exact plain_of_map hc.target h.2.2.1
  | follow target keep => exact plain_of_map hc.target h.2.2.1
  | _ => trivial

theorem plain_plain {name : String} (h : Plain name) : plain (plain name) = plain name :=
  plain_of_not_mem h

/-- A wish that is not refused is understood when the run is what is meant. -/
theorem agrees_ok {w : Wish} (h : ¬ w.Refused) : Agrees w (.ok c) ↔ w.Meant c := by
  constructor
  · intro hagrees
    obtain ⟨c', hc', hmeant⟩ := hagrees.2 h
    cases hc'
    exact hmeant
  · intro hmeant
    exact ⟨fun hrefused => absurd hrefused h, fun _ => ⟨c, rfl, hmeant⟩⟩

theorem not_agrees_error {w : Wish} (h : ¬ w.Refused) (e : StartError) : ¬ Agrees w (.error e) := by
  intro hagrees
  obtain ⟨c, hc, -⟩ := hagrees.2 h
  cases hc

theorem agrees_goal {g : GoalWish} (hdom : g.Admissible) (h : g.Writes text) :
    Agrees (.goal g) (startCandidate text) ↔ g.Kept := by
  obtain ⟨hok, hno⟩ := startCandidate_goal hdom h
  rw [g.kept_iff]
  by_cases hfits : g.Fits
  · obtain ⟨kind, hstart⟩ := hok hfits
    rw [hstart, agrees_ok id]
    show some (Goal.token g.got) = some (.token g.meant) ↔ _
    rw [Option.some_inj, Goal.token.injEq]
    exact ⟨fun heq => ⟨hfits, heq⟩, fun hkept => hkept.2⟩
  · obtain ⟨e, hstart⟩ := hno hfits
    rw [hstart]
    exact ⟨fun hagrees => absurd hagrees (not_agrees_error id e), fun hkept => absurd hkept.1 hfits⟩

theorem agrees_any {goals : List GoalWish} {texts : List String}
    (hdom : ∀ g ∈ goals, g.Admissible) (h : List.Forall₂ GoalWish.Writes goals texts)
    (hlow : 1 ≤ goals.length) (hhigh : goals.length ≤ 64) :
    Agrees (.any goals) (startCandidate ("any:" ++ "|".intercalate texts)) ↔
      ∀ g ∈ goals, g.Kept := by
  obtain ⟨hok, hno⟩ := startCandidate_any hdom h hlow hhigh
  by_cases hfits : ∀ g ∈ goals, g.Fits
  · rw [hok hfits, agrees_ok id]
    show some (Goal.composite (goals.map GoalWish.got)) = some (.composite (goals.map GoalWish.meant)) ↔ _
    rw [Option.some_inj, Goal.composite.injEq, List.map_inj_left]
    refine forall₂_congr fun g hg => ?_
    rw [g.kept_iff]
    exact ⟨fun heq => ⟨hfits g hg, heq⟩, fun hkept => hkept.2⟩
  · obtain ⟨e, hstart⟩ := hno hfits
    rw [hstart]
    refine ⟨fun hagrees => absurd hagrees (not_agrees_error id e), fun hkept => ?_⟩
    exact absurd (fun g hg => (g.kept_iff.mp (hkept g hg)).1) hfits

theorem toDouble_natCast (n : Nat) :
    toDouble false (Nat.toDigits 10 n) = match nearest n with
      | some q => .ok (.finite q)
      | none => .ok (.infinite false) := by
  have hread : readDecimal (Nat.toDigits 10 n) = some ⟨n, 0⟩ := by
    rw [readDecimal_point fun c hc => .inl (isDigit_toDigits n c hc),
      readPoint_digits Nat.toDigits_ne_nil (isDigit_toDigits n), Nat.ofDigitChars_ten_toDigits]
  have hvalue : (⟨n, 0⟩ : Decimal).value = n := by simp [Decimal.value]
  rw [toDouble, hread]
  cases hnearest : nearest (n : ℚ) with
  | none => simp only [Bool.false_eq_true, if_false, hvalue, hnearest]
  | some q => simp only [Bool.false_eq_true, if_false, hvalue, hnearest]

/-- A text that starts with a digit is read without a sign. -/
theorem parseDouble_digit {text : String} {c : Char} {cs : List Char} (h : text.toList = c :: cs)
    (hc : c.isDigit = true) : parseDouble text = toDouble false text.toList := by
  rw [parseDouble, h]
  split
  · next heq =>
      cases heq
      exact absurd hc (by decide)
  · next heq =>
      cases heq
      exact absurd hc (by decide)
  · rfl

theorem agrees_away {p : Point} {distance : Int} (hp : p.InRange) (hd : 1 ≤ distance) :
    Agrees (.away p distance) (startCandidate (awayText p.trunc distance)) ↔
      p.Whole ∧ nearest distance = some (distance : ℚ) := by
  obtain ⟨n, rfl⟩ := Int.eq_ofNat_of_zero_le (by omega : 0 ≤ distance)
  have htext : (toString (n : Int)).toList = Nat.toDigits 10 n := by
    rw [toList_toString_int, if_neg (by omega), List.nil_append, Int.natAbs_natCast]
  have hparse : parseDouble (toString (n : Int)) = match nearest n with
      | some q => .ok (.finite q)
      | none => .ok (.infinite false) := by
    obtain ⟨c, cs, hcons⟩ := List.exists_cons_of_ne_nil (Nat.toDigits_ne_nil (b := 10) (n := n))
    have hc : c.isDigit = true := isDigit_toDigits n c (hcons ▸ List.mem_cons_self)
    rw [parseDouble_digit (htext.trans hcons) hc, htext, toDouble_natCast]
  have hsplit : split ':' (awayText p.trunc n) = "away" :: p.trunc.fields ++ [toString (n : Int)] :=
    split_kind (by decide) (List.forall_mem_append.mpr
      ⟨colon_fields _, List.forall_mem_singleton.mpr (colon_toString _)⟩)
  have hstart : startCandidate (awayText p.trunc n) = startGoal "away"
      (catching "invalid_goal_coordinates" (parseAway (toString p.trunc.x) (toString p.trunc.y)
        (toString p.trunc.z) (toString (n : Int)))) := by
    rw [startCandidate, hsplit]
    show startGoal "away" (parseGoalObjective _) = _
    rw [parseGoalObjective, hsplit]
    rfl
  rw [hstart, parseAway, hparse, parsePos_trunc hp, ← trunc_eq_floor_point, Int.cast_natCast]
  cases hnear : nearest (n : ℚ) with
  | some q =>
      show Agrees _ (.ok _) ↔ _
      rw [agrees_ok id]
      show some (Goal.runAway (.finite q) p.trunc) = some (.runAway (.finite _) p.floor) ↔ _
      rw [Option.some_inj, Goal.runAway.injEq, JavaDouble.finite.injEq, Option.some_inj,
        Int.cast_natCast]
      exact and_comm
  | none =>
      show Agrees _ (.ok _) ↔ _
      rw [agrees_ok id]
      show some (Goal.runAway (.infinite false) p.trunc) = some (.runAway (.finite _) p.floor) ↔ _
      rw [Option.some_inj, Goal.runAway.injEq]
      constructor
      · intro h
        cases h.1
      · intro h
        cases h.2

/-! ### Blocks to mine -/

theorem isBlank_toString (n : Int) : isBlank (toString n) = false := by
  rw [isBlank, List.all_eq_false, toList_toString_int]
  obtain ⟨c, hc⟩ := List.exists_mem_of_ne_nil _ (Nat.toDigits_ne_nil (b := 10) (n := n.natAbs))
  have hspace : isPySpace c = false :=
    IsNameChar.not_space (.inl (by simp [Char.isAlphanum, isDigit_toDigits _ c hc]))
  exact ⟨c, List.mem_append_right _ hc, by rw [hspace]; exact Bool.false_ne_true⟩

theorem comma_plain {name : String} (h : IsName name) : ',' ∉ (plain name).toList := by
  intro hmem
  exact (h.plain_chars ',' hmem).ne (by decide) rfl

theorem startCandidate_mine {blocks : List String} {item : String} {quantity : Int}
    (hne : blocks ≠ []) (hnames : ∀ block ∈ blocks, IsName block)
    (hplains : ∀ block ∈ blocks, Plain block) (hplain : Plain item) (hlow : 1 ≤ quantity)
    (hhigh : quantity ≤ 4096) :
    ∃ c, startCandidate (mineText (blocks.map plain) (plain item) quantity) = .ok c ∧
      (Wish.mine blocks item quantity).Meant c := by
  have hmap : (blocks.map plain).map plain = blocks.map plain := by
    rw [List.map_map]
    exact List.map_congr_left fun block hblock => plain_plain (hplains block hblock)
  have hitem : plain (plain item) = plain item := plain_plain hplain
  have hone : ∀ block, blocks = [block] → isBlank (plain block) = false := by
    rintro block rfl
    exact (hnames block (List.mem_singleton_self block)).not_blank
  have hcolons : ':' ∉ (",".intercalate (blocks.map plain)).toList := by
    refine not_mem_intercalate (by decide) fun t ht => ?_
    obtain ⟨block, hblock, rfl⟩ := List.mem_map.mp ht
    exact hplains block hblock
  have htargets : split ',' (",".intercalate (blocks.map plain)) = blocks.map plain := by
    refine split_join (by simpa using hne) fun t ht => ?_
    obtain ⟨block, hblock, rfl⟩ := List.mem_map.mp ht
    exact comma_plain (hnames block hblock)
  have hmany : ∃ c, startCandidate (record ["mine", toString quantity,
      ",".intercalate (blocks.map plain), plain item]) = .ok c ∧
      (Wish.mine blocks item quantity).Meant c := by
    have hsplit : split ':' (record ["mine", toString quantity,
        ",".intercalate (blocks.map plain), plain item])
        = ["mine", toString quantity, ",".intercalate (blocks.map plain), plain item] :=
      split_kind (by decide) (List.forall_mem_cons.mpr ⟨colon_toString quantity,
        List.forall_mem_cons.mpr ⟨hcolons, List.forall_mem_singleton.mpr hplain⟩⟩)
    have hstart : startCandidate (record ["mine", toString quantity,
        ",".intercalate (blocks.map plain), plain item])
        = if "mine" = "mine" ∧ !isBlank (toString quantity) then
            startMine (toString quantity) (",".intercalate (blocks.map plain)) (plain item)
          else unsupported := by
      rw [startCandidate, hsplit]
      rfl
    have hint : IsInt32 quantity := ⟨by omega, by omega⟩
    have hsmall : ¬ (quantity < 1 ∨ 4096 < quantity) := by omega
    rw [hstart, if_pos ⟨rfl, by rw [isBlank_toString]; rfl⟩, startMine, parseInt_of_isInt32 hint]
    refine ⟨_, if_neg hsmall, rfl, rfl, ?_, ?_, rfl⟩
    · dsimp only
      rw [htargets, hmap]
    · dsimp only
      rw [Option.map_some, hitem]
  unfold mineText
  split
  · next block heq =>
      obtain ⟨name, rfl, rfl⟩ := List.map_eq_singleton_iff.mp heq
      have hblank := hone name rfl
      have hname : ':' ∉ (plain name).toList := hplains name (List.mem_singleton_self name)
      split
      · next hq =>
          split
          · next hsame =>
              -- the block alone
              have hsplit : split ':' (record ["mine", plain name]) = ["mine", plain name] :=
                split_kind (by decide) (List.forall_mem_singleton.mpr hname)
              have hstart : startCandidate (record ["mine", plain name])
                  = if "mine" = "mine" ∧ !isBlank (plain name) then
                      .ok { kind := "mine", target := some (plain name), targets := [plain name],
                            item := some (plain name) }
                    else unsupported := by
                rw [startCandidate, hsplit]
                rfl
              rw [hstart, if_pos ⟨rfl, by rw [hblank]; rfl⟩]
              refine ⟨_, rfl, rfl, rfl, hmap, ?_, hq.symm⟩
              dsimp only
              rw [← hsame, Option.map_some, hitem]
          · -- the block and an item of another name
            have hsplit : split ':' (record ["mine", plain name, plain item])
                = ["mine", plain name, plain item] :=
              split_kind (by decide) (List.forall_mem_cons.mpr
                ⟨hname, List.forall_mem_singleton.mpr hplain⟩)
            have hstart : startCandidate (record ["mine", plain name, plain item])
                = if "mine" = "mine" ∧ !isBlank (plain name) then
                    .ok { kind := "mine", target := some (plain name), targets := [plain name],
                          item := some (plain item) }
                  else unsupported := by
              rw [startCandidate, hsplit]
              rfl
            rw [hstart, if_pos ⟨rfl, by rw [hblank]; rfl⟩]
            refine ⟨_, rfl, rfl, rfl, hmap, ?_, hq.symm⟩
            dsimp only
            rw [Option.map_some, hitem]
      · have hjoin : ",".intercalate ([name].map plain) = plain name := by simp
        rw [hjoin] at hmany
        exact hmany
  · exact hmany

theorem agrees_mine {blocks : List String} {item : String} {quantity : Int} (hne : blocks ≠ [])
    (hdom : (Wish.mine blocks item quantity).Admissible) (hlow : 1 ≤ quantity)
    (hhigh : quantity ≤ 4096) :
    Agrees (.mine blocks item quantity)
        (startCandidate (mineText (blocks.map plain) (plain item) quantity)) ↔
      (∀ block ∈ blocks, Plain block) ∧ Plain item := by
  constructor
  · intro hagrees
    obtain ⟨c, hc, hmeant⟩ := hagrees.2 id
    exact Wish.plain_of_meant (colonless_start hc) hmeant
  · rintro ⟨hplains, hplain⟩
    obtain ⟨c, hc, hmeant⟩ := startCandidate_mine hne hdom.1 hplains hplain hlow hhigh
    rw [hc]
    exact (agrees_ok id).mpr hmeant

/-! ### Other processes -/

theorem agrees_get {block : String} :
    Agrees (.get block) (startCandidate (record ["get", plain block])) ↔ Plain block := by
  constructor
  · intro hagrees
    obtain ⟨c, hc, hmeant⟩ := hagrees.2 id
    exact Wish.plain_of_meant (colonless_start hc) hmeant
  · intro hplain
    have hsplit : split ':' (record ["get", plain block]) = ["get", plain block] :=
      split_kind (by decide) (List.forall_mem_singleton.mpr hplain)
    have hstart : startCandidate (record ["get", plain block])
        = .ok { kind := "get", target := some (plain block) } := by
      rw [startCandidate, hsplit]
      rfl
    rw [hstart]
    exact (agrees_ok id).mpr ⟨rfl, rfl, congrArg some (plain_plain hplain)⟩

theorem agrees_pickup {item : String} :
    Agrees (.pickup item) (startCandidate (record ["pickup", plain item])) ↔ Plain item := by
  constructor
  · intro hagrees
    obtain ⟨c, hc, hmeant⟩ := hagrees.2 id
    exact Wish.plain_of_meant (colonless_start hc) hmeant
  · intro hplain
    have hsplit : split ':' (record ["pickup", plain item]) = ["pickup", plain item] :=
      split_kind (by decide) (List.forall_mem_singleton.mpr hplain)
    have hstart : startCandidate (record ["pickup", plain item])
        = startFollow "pickup" (plain item) [] := by
      rw [startCandidate, hsplit]
      rfl
    have hcheck : checkDistance (.finite (max 3 ((0 : Int) : ℚ))) = .ok (.finite (max 3 ((0 : Int) : ℚ))) := by
      rw [checkDistance, if_neg (not_lt.mpr (le_max_of_le_left (by norm_num)))]
    have hrun : startFollow "pickup" (plain item) []
        = .ok { kind := "pickup", target := some (plain item), item := some (plain item),
                followKeepDistance := .finite (max 3 ((0 : Int) : ℚ)) } := by
      unfold startFollow
      simp only [followRange, followDistance, bind, Except.bind, hcheck]
      rfl
    have hname : some (plain (plain item)) = some (plain item) := congrArg some (plain_plain hplain)
    rw [hstart, hrun]
    exact (agrees_ok id).mpr ⟨rfl, rfl, hname, hname⟩

theorem agrees_explore {x z : ℚ} (hx : InRange x) (hz : InRange z) :
    Agrees (.explore x z) (startCandidate
      (record ["explore", toString (trunc x), toString (trunc z)])) ↔ Whole x ∧ Whole z := by
  have hsplit : split ':' (record ["explore", toString (trunc x), toString (trunc z)])
      = ["explore", toString (trunc x), toString (trunc z)] :=
    split_kind (by decide) (List.forall_mem_cons.mpr
      ⟨colon_toString _, List.forall_mem_singleton.mpr (colon_toString _)⟩)
  have hstart : startCandidate (record ["explore", toString (trunc x), toString (trunc z)])
      = .ok { kind := "explore", anchor := some ⟨trunc x, 0, trunc z⟩ } := by
    rw [startCandidate, hsplit]
    show startExplore _ _ = _
    rw [startExplore, parseInt_of_isInt32 (isInt32_trunc hx),
      parseInt_of_isInt32 (isInt32_trunc hz)]
    rfl
  rw [hstart, agrees_ok id]
  show none = none ∧ "explore" = "explore" ∧ some (trunc x, trunc z) = some (⌊x⌋, ⌊z⌋) ↔ _
  rw [Option.some_inj, Prod.mk.injEq, trunc_eq_floor_iff, trunc_eq_floor_iff]
  simp

theorem agrees_farm {range : Int} {p : Point} (hlow : 1 ≤ range) (hp : p.InRange) :
    Agrees (.farm range p) (startCandidate (farmText range p.trunc)) ↔
      range < 2 ^ 31 ∧ p.Whole := by
  have hsplit : split ':' (farmText range p.trunc) = "farm" :: toString range :: p.trunc.fields :=
    split_kind (by decide) (List.forall_mem_cons.mpr ⟨colon_toString _, colon_fields _⟩)
  have hstart : startCandidate (farmText range p.trunc) = startFarm (toString range)
      (toString p.trunc.x) (toString p.trunc.y) (toString p.trunc.z) := by
    rw [startCandidate, hsplit]
    rfl
  have hint := isInt32_of_nonneg (by omega : 0 ≤ range)
  rw [hstart, startFarm, ← hint]
  by_cases hfits : IsInt32 range
  · rw [parseInt_of_isInt32 hfits]
    have hrun : (do
        let range ← (.ok range : Except StartError Int)
        let anchor ← parsePos (toString p.trunc.x) (toString p.trunc.y) (toString p.trunc.z)
        return { kind := "farm", range, anchor := some anchor })
        = (.ok { kind := "farm", range, anchor := some p.trunc } : Except StartError Candidate) := by
      rw [parsePos_trunc hp]
      rfl
    rw [hrun, agrees_ok id, ← trunc_eq_floor_point]
    show none = none ∧ "farm" = "farm" ∧ range = range ∧ some p.trunc = some p.floor ↔ _
    rw [Option.some_inj]
    simp [hfits]
  · rw [parseInt_of_not_isInt32 hfits]
    exact ⟨fun hagrees => absurd hagrees (not_agrees_error id _), fun hkept => absurd hkept.1 hfits⟩

theorem agrees_clear {start stop : Point} (hstart : start.InRange) (hstop : stop.InRange) :
    Agrees (.clear start stop) (startCandidate (clearText start.trunc stop.trunc)) ↔
      start.Whole ∧ stop.Whole := by
  have hsplit : split ':' (clearText start.trunc stop.trunc)
      = "clear" :: start.trunc.fields ++ stop.trunc.fields :=
    split_kind (by decide) (List.forall_mem_append.mpr ⟨colon_fields _, colon_fields _⟩)
  have hrun : startCandidate (clearText start.trunc stop.trunc)
      = .ok { kind := "clear", anchor := some start.trunc, stop := some stop.trunc } := by
    rw [startCandidate, hsplit]
    show startClear .. = _
    rw [startClear, parsePos_trunc hstart]
    show (parsePos (toString stop.trunc.x) (toString stop.trunc.y) (toString stop.trunc.z) >>= _) = _
    rw [parsePos_trunc hstop]
    rfl
  rw [hrun, agrees_ok id, ← trunc_eq_floor_point, ← trunc_eq_floor_point]
  show none = none ∧ "clear" = "clear" ∧ some start.trunc = some start.floor ∧
    some stop.trunc = some stop.floor ↔ _
  rw [Option.some_inj, Option.some_inj]
  simp

theorem agrees_elytra {p : Point} (hp : p.InRange) :
    Agrees (.elytra p) (startCandidate (record ("elytra" :: p.trunc.fields))) ↔ p.Whole := by
  have hsplit : split ':' (record ("elytra" :: p.trunc.fields)) = "elytra" :: p.trunc.fields :=
    split_kind (by decide) (colon_fields _)
  have hrun : startCandidate (record ("elytra" :: p.trunc.fields))
      = .ok { kind := "elytra", anchor := some p.trunc } := by
    rw [startCandidate, hsplit]
    show (parsePos ..).map _ = _
    rw [parsePos_trunc hp]
    rfl
  rw [hrun, agrees_ok id, ← trunc_eq_floor_point]
  show none = none ∧ "elytra" = "elytra" ∧ some p.trunc = some p.floor ↔ _
  rw [Option.some_inj]
  simp

/-! ### Followers and fixtures -/

theorem split_record_cons (a b : String) (rest : List String) :
    split ':' (record (a :: b :: rest)) = split ':' a ++ split ':' (record (b :: rest)) := by
  have happ : (record (a :: b :: rest)).toList = a.toList ++ ':' :: (record (b :: rest)).toList := by
    simp only [record, String.toList_intercalate, List.map_cons, List.intercalate_cons_cons]
    simp
  rw [split, happ, List.splitOn_append_cons_self, List.map_append]
  rfl

/-- A field with a colon becomes two at least. -/
theorem two_le_length_split {f : String} (h : ':' ∈ f.toList) : 2 ≤ (split ':' f).length := by
  obtain ⟨before, after, heq⟩ := List.append_of_mem h
  rw [split, List.length_map, heq, List.splitOn_append_cons_self, List.length_append]
  have hbefore := List.length_pos_iff.mpr (List.splitOn_ne_nil ':' before)
  have hafter := List.length_pos_iff.mpr (List.splitOn_ne_nil ':' after)
  omega

theorem split_record_colon {kind target : String} {b : String} {rest : List String}
    (hkind : ':' ∉ kind.toList) (h : ':' ∈ target.toList)
    (hrest : ∀ f ∈ b :: rest, ':' ∉ f.toList) :
    ∃ fields, split ':' (record (kind :: target :: b :: rest)) = kind :: fields ∧
      rest.length + 3 ≤ fields.length := by
  have hsplit : split ':' kind = [kind] := by
    rw [split, List.splitOn_eq_singleton hkind, List.map_singleton, String.ofList_toList]
  refine ⟨split ':' target ++ b :: rest, ?_, ?_⟩
  · rw [split_record_cons, split_record_cons, hsplit, split_record (List.cons_ne_nil _ _) hrest]
    rfl
  · have hlen := two_le_length_split h
    rw [List.length_append, List.length_cons]
    omega

/-- `follow` has three fields at most, and `build` seven. -/
theorem startCandidate_unsupported {kind : String} {fields : List String}
    (hsplit : split ':' text = kind :: fields)
    (h : kind = "follow" ∧ 4 ≤ fields.length ∨ kind = "build" ∧ 8 ≤ fields.length) :
    ∃ e, startCandidate text = .error e := by
  refine ⟨.illegalArgument "unsupported_objective", ?_⟩
  rw [startCandidate, hsplit]
  rcases h with ⟨rfl, hlen⟩ | ⟨rfl, hlen⟩
  · match fields, hlen with
    | [_, _, _, _], _ => rfl
    | [_, _, _, _, _], _ => rfl
    | [_, _, _, _, _, _], _ => rfl
    | [_, _, _, _, _, _, _], _ => rfl
    | _ :: _ :: _ :: _ :: _ :: _ :: _ :: _ :: _, _ => rfl
  · match fields, hlen with
    | _ :: _ :: _ :: _ :: _ :: _ :: _ :: _ :: _, _ => rfl

theorem parseDouble_floatText {q : ℚ} (h : IsDouble q) (hq : 0 ≤ q) :
    parseDouble (floatText q) = .ok (.finite q) := by
  obtain ⟨c, cs, hcons, hc⟩ := exists_text_cons (shortest q)
  obtain ⟨d, hread, hnear⟩ := readDecimal_shortest h hq
  have htext : (floatText q).toList = (shortest q).text := by
    rw [floatText, String.toList_ofList]
  rw [parseDouble_digit (htext.trans hcons) hc, htext, toDouble, hread]
  simp only [Bool.false_eq_true, if_false, hnear]

/-- The distance that is written is the one to keep, unless both are far
beyond 32 bits. -/
theorem keep_written {keep : Number} {q : ℚ} (hfin : keep.Finite) (hq : keep.toFloat = some q) :
    (max 0 q = keep.keepDistance ∧ IsDouble keep.keepDistance) ∨
      2 ^ 31 ≤ radius (rounded (max 0 q - 1)) ∧ 2 ^ 31 ≤ keep.keepRadius := by
  have hzero : IsDouble 0 := by
    have h := isDouble_intCast (n := 0) (by norm_num)
    rwa [Int.cast_zero] at h
  cases keep with
  | float r =>
      have hr : r = q := Option.some.inj hq
      refine .inl ⟨by rw [← hr]; rfl, ?_⟩
      show IsDouble (max 0 r)
      rcases max_choice 0 r with h | h
      · rw [h]
        exact hzero
      · rw [h]
        exact hfin
  | int n =>
      have hnear : nearest n = some q := hq
      rcases isDouble_or_big n with hdouble | hneg | hbig
      · rw [nearest_of_isDouble hdouble] at hnear
        have hn : (n : ℚ) = q := Option.some.inj hnear
        refine .inl ⟨by rw [← hn]; rfl, ?_⟩
        show IsDouble (max 0 (n : ℚ))
        rcases max_choice 0 (n : ℚ) with h | h
        · rw [h]
          exact hzero
        · rw [h]
          exact hdouble
      · have hzeros : max 0 q = 0 ∧ max 0 (n : ℚ) = 0 :=
          ⟨max_eq_left (nearest_nonpos hneg hnear), max_eq_left hneg⟩
        refine .inl ⟨?_, ?_⟩
        · rw [hzeros.1]
          exact hzeros.2.symm
        · show IsDouble (max 0 (n : ℚ))
          rw [hzeros.2]
          exact hzero
      · have hqbig := le_nearest hbig hnear
        have hfloor : ∀ x : ℚ, 2 ^ 52 ≤ x → 2 ^ 31 ≤ radius x := by
          intro x hx
          have hle : (2 ^ 31 : Int) ≤ ⌊x⌋ := Int.le_floor.mpr (le_trans (by norm_num) hx)
          exact le_max_of_le_right hle
        have hless : ∀ x : ℚ, 2 ^ 53 ≤ x → 2 ^ 52 ≤ max 0 x - 1 := by
          intro x hx
          have hle : x ≤ max 0 x := le_max_right _ _
          linarith
        refine .inr ⟨hfloor _ ?_, hfloor _ (hless _ hbig)⟩
        rw [rounded]
        cases hr : nearest (max 0 q - 1) with
        | none => exact hless _ hqbig
        | some x => exact le_nearest (hless _ hqbig) hr

theorem agrees_follow {target : String} {keep : Number} {q : ℚ} (hfin : keep.Finite)
    (hq : keep.toFloat = some q) :
    Agrees (.follow target keep)
        (startCandidate (followText target (radius (rounded (max 0 q - 1))) (max 0 q))) ↔
      ':' ∉ target.toList ∧ keep.keepRadius < 2 ^ 31 := by
  have hfloat : ':' ∉ (floatText (max 0 q)).toList := not_mem_floatText _ (by decide)
  have hrest : ∀ f ∈ [toString (radius (rounded (max 0 q - 1))), floatText (max 0 q)],
      ':' ∉ f.toList :=
    List.forall_mem_cons.mpr ⟨colon_toString _, List.forall_mem_singleton.mpr hfloat⟩
  by_cases hcolon : ':' ∈ target.toList
  · obtain ⟨fields, hsplit, hlen⟩ := split_record_colon (by decide : ':' ∉ "follow".toList)
      hcolon hrest
    obtain ⟨e, he⟩ := startCandidate_unsupported hsplit (.inl ⟨rfl, hlen⟩)
    rw [followText, he]
    exact ⟨fun hagrees => absurd hagrees (not_agrees_error id e), fun hkept => absurd hcolon hkept.1⟩
  · have hsplit : split ':' (followText target (radius (rounded (max 0 q - 1))) (max 0 q))
        = ["follow", target, toString (radius (rounded (max 0 q - 1))), floatText (max 0 q)] :=
      split_kind (by decide) (List.forall_mem_cons.mpr ⟨hcolon, hrest⟩)
    have hstart : startCandidate (followText target (radius (rounded (max 0 q - 1))) (max 0 q))
        = startFollow "follow" target
            [toString (radius (rounded (max 0 q - 1))), floatText (max 0 q)] := by
      rw [startCandidate, hsplit]
      rfl
    rw [hstart, startFollow, followRange]
    have hnonneg := radius_nonneg (rounded (max 0 q - 1))
    have hbad : 2 ^ 31 ≤ radius (rounded (max 0 q - 1)) → 2 ^ 31 ≤ keep.keepRadius →
        (Agrees (.follow target keep) (do
          let range ← parseInt (toString (radius (rounded (max 0 q - 1))))
          let distance ← followDistance range
            [toString (radius (rounded (max 0 q - 1))), floatText (max 0 q)]
          let distance ← checkDistance distance
          return { kind := "follow", target := some target, range, followKeepDistance := distance,
                   item := if "follow" = "pickup" then some target else none }) ↔
          ':' ∉ target.toList ∧ keep.keepRadius < 2 ^ 31) := by
      intro hbig hbig'
      rw [parseInt_of_not_isInt32 (mt (isInt32_of_nonneg hnonneg).mp (by omega))]
      exact ⟨fun hagrees => absurd hagrees (not_agrees_error id _),
        fun hkept => absurd hkept.2 (by omega)⟩
    rcases keep_written hfin hq with ⟨hsame, hdouble⟩ | ⟨hbig, hbig'⟩
    · rw [hsame] at hbad hnonneg ⊢
      have hpos : 0 ≤ keep.keepDistance := le_max_left _ _
      rcases radius_rounded hdouble hpos with hradius | ⟨hbig, hbig'⟩
      · by_cases hfits : keep.keepRadius < 2 ^ 31
        · have hint : IsInt32 (radius (rounded (keep.keepDistance - 1))) := by
            rw [hradius]
            exact (isInt32_of_nonneg (radius_nonneg _)).mpr hfits
          have hcheck : checkDistance (.finite keep.keepDistance) = .ok (.finite keep.keepDistance) := by
            rw [checkDistance, if_neg (not_lt.mpr hpos)]
          rw [parseInt_of_isInt32 hint]
          simp only [followDistance, bind, Except.bind, parseDouble_floatText hdouble hpos, hcheck]
          refine (agrees_ok id).trans ⟨fun _ => ⟨hcolon, hfits⟩, fun _ => ?_⟩
          exact ⟨rfl, rfl, rfl, hradius, rfl⟩
        · exact hbad (by rw [hradius]; exact not_lt.mp hfits) (not_lt.mp hfits)
      · exact hbad hbig hbig'
    · exact hbad hbig hbig'

theorem mulInt_mulInt (a b c : Int) : mulInt (mulInt a b) c = Int.bmod (a * b * c) (2 ^ 32) := by
  rw [mulInt, mulInt, Int.bmod_mul_bmod]

theorem bmod_small {n : Int} (hlow : 0 ≤ n) (hhigh : n ≤ 256) : Int.bmod n (2 ^ 32) = n := by
  have hmod : n % ((2 ^ 32 : Nat) : Int) = n := Int.emod_eq_of_lt hlow (by norm_num; omega)
  rw [Int.bmod_def, hmod, if_pos (by norm_num; omega)]

theorem agrees_error {w : Wish} (e : StartError) : Agrees w (.error e) ↔ w.Refused := by
  constructor
  · intro hagrees
    by_contra hno
    exact not_agrees_error hno e hagrees
  · intro hrefused
    exact ⟨fun _ => ⟨e, rfl⟩, fun hno => absurd hrefused hno⟩

theorem startCandidate_build {block : String} {p : Point} {sx sy sz : Int} (hplain : Plain block)
    (hp : p.InRange) (hx : IsInt32 sx) (hy : IsInt32 sy) (hz : IsInt32 sz) :
    startCandidate (buildText (plain block) p.trunc sx sy sz)
      = buildCandidate (plain block) p.trunc sx sy sz := by
  have hsizes : ∀ f ∈ [toString sx, toString sy, toString sz], ':' ∉ f.toList :=
    List.forall_mem_cons.mpr ⟨colon_toString _, List.forall_mem_cons.mpr
      ⟨colon_toString _, List.forall_mem_singleton.mpr (colon_toString _)⟩⟩
  have hsplit : split ':' (buildText (plain block) p.trunc sx sy sz)
      = ["build", plain block] ++ p.trunc.fields ++ [toString sx, toString sy, toString sz] :=
    split_record (by simp) (List.forall_mem_append.mpr ⟨List.forall_mem_append.mpr
      ⟨List.forall_mem_cons.mpr ⟨by decide, List.forall_mem_singleton.mpr hplain⟩,
        colon_fields _⟩, hsizes⟩)
  rw [startCandidate, hsplit]
  show startBuild .. = _
  rw [startBuild, parsePos_trunc hp, parseInt_of_isInt32 hx, parseInt_of_isInt32 hy,
    parseInt_of_isInt32 hz]
  rfl

theorem agrees_build {block : String} {p : Point} {sx sy sz : Int}
    (hdom : (Wish.build block p sx sy sz).Admissible) :
    Agrees (.build block p sx sy sz) (startCandidate (buildText (plain block) p.trunc sx sy sz)) ↔
      (Wish.build block p sx sy sz).Kept := by
  obtain ⟨-, hp, hx, hy, hz⟩ := hdom
  by_cases hplain : Plain block
  · rw [startCandidate_build hplain hp hx hy hz, buildCandidate]
    by_cases hpos : 0 < sx ∧ 0 < sy ∧ 0 < sz
    · have hsize : refusedSize sx sy sz = true ↔ 256 < Int.bmod (sx * sy * sz) (2 ^ 32) := by
        simp only [refusedSize, Bool.or_eq_true, decide_eq_true_eq, mulInt_mulInt]
        omega
      have hprod : 0 < sx * sy * sz := mul_pos (mul_pos hpos.1 hpos.2.1) hpos.2.2
      by_cases hle : sx * sy * sz ≤ 256
      · -- the fixture is small enough
        have hrefused : ¬ (Wish.build block p sx sy sz).Refused := fun h =>
          h ⟨hpos.1, hpos.2.1, hpos.2.2, hle⟩
        have haccept : ¬ refusedSize sx sy sz = true := by
          rw [hsize, bmod_small hprod.le hle]
          omega
        rw [if_neg haccept, agrees_ok hrefused, Wish.Kept, if_pos hpos, if_pos hle,
          ← trunc_eq_floor_point]
        show none = none ∧ "build" = "build" ∧ some (plain (plain block)) = some (plain block) ∧
          some p.trunc = some p.floor ∧ sx = sx ∧ sy = sy ∧ sz = sz ↔ _
        rw [plain_plain hplain, Option.some_inj, Option.some_inj]
        simp [hplain]
      · -- it is to be refused
        have hrefused : (Wish.build block p sx sy sz).Refused := fun h => hle h.2.2.2
        rw [Wish.Kept, if_pos hpos, if_neg hle]
        split
        · next hbig =>
            exact ⟨fun _ _ => hsize.mp hbig, fun _ => (agrees_error _).mpr hrefused⟩
        · next hsmall =>
            constructor
            · intro hagrees
              obtain ⟨e, he⟩ := hagrees.1 hrefused
              cases he
            · intro hkept
              exact absurd (hsize.mpr (hkept hplain)) hsmall
    · have hrefused : (Wish.build block p sx sy sz).Refused := fun h =>
        hpos ⟨h.1, h.2.1, h.2.2.1⟩
      have hsize : refusedSize sx sy sz = true := by
        simp only [refusedSize, Bool.or_eq_true, decide_eq_true_eq]
        omega
      rw [if_pos hsize, agrees_error, Wish.Kept, if_neg hpos]
      exact ⟨fun _ => trivial, fun _ => hrefused⟩
  · -- a namespace makes more fields than `build` has
    have hrest : ∀ f ∈ [toString p.trunc.x, toString p.trunc.y, toString p.trunc.z, toString sx,
        toString sy, toString sz], ':' ∉ f.toList := by
      intro f hf
      simp only [List.mem_cons, List.not_mem_nil, or_false] at hf
      rcases hf with rfl | rfl | rfl | rfl | rfl | rfl <;> exact colon_toString _
    obtain ⟨fields, hsplit, hlen⟩ := split_record_colon (by decide : ':' ∉ "build".toList)
      (not_not.mp hplain) hrest
    obtain ⟨e, he⟩ := startCandidate_unsupported hsplit (.inr ⟨rfl, hlen⟩)
    have htext : startCandidate (buildText (plain block) p.trunc sx sy sz) = .error e := he
    rw [htext, agrees_error, Wish.Kept]
    split
    · next hpos =>
        split
        · next hle =>
            exact ⟨fun h => absurd ⟨hpos.1, hpos.2.1, hpos.2.2, hle⟩ h,
              fun h => absurd h.1 hplain⟩
        · next hle =>
            exact ⟨fun _ h => absurd h hplain, fun _ h => hle h.2.2.2⟩
    · next hpos =>
        exact ⟨fun _ => trivial, fun _ h => hpos ⟨h.1, h.2.1, h.2.2.1⟩⟩

end Wishes

/-! ## The result -/

/-- **The client understands an action** exactly when its wish is kept. -/
theorem objective_agrees (py : Python) (a : Action) (w : Wish) (text : String)
    (hw : wishOf a = some w) (hdom : w.Admissible) (htext : objectiveFor py a = .ok (some text)) :
    Agrees w (startCandidate text) ↔ w.Kept := by
  have hwrites := writes_of_objectiveFor hw hdom htext
  cases w with
  | goal g => exact agrees_goal hdom hwrites
  | away p distance =>
      obtain ⟨hlow, rfl⟩ := hwrites
      exact agrees_away hdom hlow
  | any goals =>
      obtain ⟨texts, hforall, hlow, hhigh, rfl⟩ := hwrites
      exact agrees_any hdom hforall hlow hhigh
  | mine blocks item quantity =>
      obtain ⟨hne, hlow, hhigh, rfl⟩ := hwrites
      exact agrees_mine hne hdom hlow hhigh
  | get block =>
      cases hwrites
      exact agrees_get
  | explore x z =>
      cases hwrites
      exact agrees_explore hdom.1 hdom.2
  | follow target keep =>
      obtain ⟨q, hq, rfl⟩ := hwrites
      exact agrees_follow hdom.2 hq
  | pickup item =>
      cases hwrites
      exact agrees_pickup
  | farm range anchor =>
      obtain ⟨hlow, rfl⟩ := hwrites
      exact agrees_farm hlow hdom
  | build block anchor sx sy sz =>
      cases hwrites
      exact agrees_build hdom
  | clear start stop =>
      cases hwrites
      exact agrees_clear hdom.1 hdom.2
  | elytra target =>
      cases hwrites
      exact agrees_elytra hdom

/-! ### Single actions -/

/-- Texts that are numbers, and values in place of texts, are not needed. -/
def interpreter : Python := ⟨fun _ => .error .valueError, fun _ => ""⟩

def buildWall : Action :=
  ⟨"buildStructure", [("anchor", .arr [.int 1, .int 64, .float (-3)]),
    ("size", .arr [.int 8, .int 4, .int 8]), ("block", .str "minecraft:stone")]⟩

theorem inRange_intCast {n : Int} (h : IsInt32 n) : InRange n :=
  ⟨by exact_mod_cast h.1, by exact_mod_cast h.2⟩

/-- A resource id with a namespace. -/
theorem isName_resource (ns path : String) (hns : IsNamespace ns.toList) (hpath : IsPath path.toList)
    {name : String} (h : name.toList = ns.toList ++ ':' :: path.toList) : IsName name :=
  .inl (.inr ⟨_, _, h, hns, hpath⟩)

theorem isName_stone : IsName "minecraft:stone" :=
  isName_resource "minecraft" "stone"
    ⟨by decide, List.forall_iff_forall_mem.mp (by decide)⟩
    ⟨by decide, List.forall_iff_forall_mem.mp (by decide)⟩ rfl

theorem objective_agrees_wall :
    Agrees (.build "minecraft:stone" ⟨1, 64, -3⟩ 8 4 8)
      (startCandidate "build:stone:1:64:-3:8:4:8") := by
  have hanchor : Point.InRange ⟨1, 64, -3⟩ :=
    ⟨by exact_mod_cast inRange_intCast (n := 1) (by decide),
      by exact_mod_cast inRange_intCast (n := 64) (by decide),
      by exact_mod_cast inRange_intCast (n := -3) (by decide)⟩
  have hdom : (Wish.build "minecraft:stone" ⟨1, 64, -3⟩ 8 4 8).Admissible :=
    ⟨isName_stone, hanchor, by decide, by decide, by decide⟩
  have hkept : (Wish.build "minecraft:stone" ⟨1, 64, -3⟩ 8 4 8).Kept := by
    rw [Wish.Kept, if_pos (by decide), if_pos (by decide)]
    exact ⟨by decide, .inl (by norm_num), .inl (by norm_num), .inr (by norm_num)⟩
  exact (objective_agrees interpreter buildWall (.build "minecraft:stone" ⟨1, 64, -3⟩ 8 4 8)
    "build:stone:1:64:-3:8:4:8" (by decide +kernel) hdom (by decide +kernel)).mpr hkept

/-- The client does not understand an action. -/
def Misread (a : Action) : Prop :=
  ∃ w text, wishOf a = some w ∧ w.Admissible ∧ objectiveFor interpreter a = .ok (some text) ∧
    ¬ Agrees w (startCandidate text)

/-- A wish of which another run is made. -/
theorem misread_run {a : Action} (w : Wish) (text : String) (c : Candidate)
    (hw : wishOf a = some w) (hdom : w.Admissible)
    (htext : objectiveFor interpreter a = .ok (some text)) (hstart : startCandidate text = .ok c)
    (hbad : w.Refused ∨ ¬ w.Meant c) : Misread a := by
  refine ⟨w, text, hw, hdom, htext, fun hagrees => ?_⟩
  rw [hstart] at hagrees
  rcases hbad with hrefused | hmeant
  · obtain ⟨e, he⟩ := hagrees.1 hrefused
    cases he
  · by_cases hrefused : w.Refused
    · obtain ⟨e, he⟩ := hagrees.1 hrefused
      cases he
    · exact hmeant ((agrees_ok hrefused).mp hagrees)

/-- A wish that is answered with an error. -/
theorem misread_error {a : Action} (w : Wish) (text : String) (e : StartError)
    (hw : wishOf a = some w) (hdom : w.Admissible)
    (htext : objectiveFor interpreter a = .ok (some text)) (hstart : startCandidate text = .error e)
    (hrefused : ¬ w.Refused) : Misread a := by
  refine ⟨w, text, hw, hdom, htext, fun hagrees => ?_⟩
  rw [hstart] at hagrees
  exact not_agrees_error hrefused e hagrees

/-- **Objectives that are read as something else**: a coordinate between -1
and 0, a block of a mod, an entity with its namespace, a fixture of `2 ^ 32`
blocks, a radius of `2 ^ 31`. -/
theorem objective_misread :
    Misread ⟨"moveTo", [("target", .arr [.float (-1 / 2), .int 64, .int 3])]⟩ ∧
    Misread ⟨"mineResource", [("block", .str "create:zinc_ore")]⟩ ∧
    Misread ⟨"followEntity", [("target_type", .str "minecraft:zombie")]⟩ ∧
    Misread ⟨"buildStructure", [("anchor", .arr [.int 1, .int 64, .int 3]),
      ("size", .arr [.int 65536, .int 65536, .int 1]), ("block", .str "minecraft:stone")]⟩ ∧
    Misread ⟨"moveTo", [("target", .arr [.int 1, .int 64, .int 3]),
      ("arrival_radius", .int (2 ^ 31))]⟩ := by
  have hx : InRange 1 := by exact_mod_cast inRange_intCast (n := 1) (by decide)
  have hy : InRange 64 := by exact_mod_cast inRange_intCast (n := 64) (by decide)
  have hz : InRange 3 := by exact_mod_cast inRange_intCast (n := 3) (by decide)
  have hhalf : InRange (-1 / 2) := ⟨by norm_num, by norm_num⟩
  have hore : IsName "create:zinc_ore" :=
    isName_resource "create" "zinc_ore"
    ⟨by decide, List.forall_iff_forall_mem.mp (by decide)⟩
    ⟨by decide, List.forall_iff_forall_mem.mp (by decide)⟩ rfl
  have hzombie : IsName "minecraft:zombie" :=
    isName_resource "minecraft" "zombie"
    ⟨by decide, List.forall_iff_forall_mem.mp (by decide)⟩
    ⟨by decide, List.forall_iff_forall_mem.mp (by decide)⟩ rfl
  refine ⟨?_, ?_, ?_, ?_, ?_⟩
  · refine misread_run (.goal (.near ⟨-1 / 2, 64, 3⟩ (.int 1))) "near:0:64:3:1"
      { kind := "near", goal := some (.token (.near ⟨0, 64, 3⟩ 1)) } (by decide +kernel)
      ⟨⟨hhalf, hy, hz⟩, trivial⟩ (by decide +kernel) (by decide +kernel) (.inr ?_)
    show ¬ some _ = some _
    decide +kernel
  · refine misread_run (.mine ["create:zinc_ore"] "create:zinc_ore" 1) "mine:create:zinc_ore"
      { kind := "mine", target := some "create", targets := ["create"], item := some "zinc_ore" }
      (by decide +kernel) ⟨List.forall_mem_singleton.mpr hore, hore⟩ (by decide +kernel)
      (by decide +kernel) (.inr ?_)
    intro hmeant
    exact absurd hmeant.2.2.1 (by decide +kernel)
  · exact misread_error (.follow "minecraft:zombie" (.int 3)) "follow:minecraft:zombie:2:3.0"
      (.illegalArgument "unsupported_objective") (by decide +kernel) ⟨hzombie, trivial⟩
      (by decide +kernel) (by decide +kernel) id
  · refine misread_run (.build "minecraft:stone" ⟨1, 64, 3⟩ 65536 65536 1)
      "build:stone:1:64:3:65536:65536:1"
      { kind := "build", target := some "stone", anchor := some ⟨1, 64, 3⟩, sx := 65536,
        sy := 65536, sz := 1 } (by decide +kernel)
      ⟨isName_stone, ⟨hx, hy, hz⟩, by decide, by decide, by decide⟩ (by decide +kernel)
      (by decide +kernel) (.inl ?_)
    intro hsmall
    exact absurd hsmall.2.2.2 (by decide)
  · exact misread_error (.goal (.near ⟨1, 64, 3⟩ (.int (2 ^ 31)))) "near:1:64:3:2147483648"
      .numberFormat (by decide +kernel) ⟨⟨hx, hy, hz⟩, trivial⟩ (by decide +kernel)
      (by decide +kernel) id

end Objective

end MineBot
