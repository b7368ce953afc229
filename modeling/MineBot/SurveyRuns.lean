import Mathlib
import MineBot.Results
import MineBot.SurveyRoute

/-!
# Resumed surveys

A survey is cut short and resumed: the route and how far it was followed are
read back from the sample that is found last, among the records of all
searches. A search takes samples as it moves and passes a waypoint only when
it last did so within two blocks of it.

`Kept` is the invariant: whatever a sample says was passed was sampled, and
every search of the survey follows one route.
-/

namespace MineBot

namespace Survey

inductive Space where
  | surface
  | underground
  | any
deriving DecidableEq

/-- What a search is asked for, up to its targets, which the records are
listed for. -/
structure Request where
  region : Region
  space : Space
  radius : Nat
  targetY : Option Int
deriving DecidableEq

/-- `search_sample`. -/
structure Sample where
  request : Request
  routeOrigin : Position
  routeIndex : Nat
  pos : Int × Int × Int

/-- An event of the coverage, with the samples among its observations. -/
structure Event where
  region : Int × Int
  samples : List Sample

/-- The latest event of each region, of events listed from the latest. -/
def latestOf : List Event → List Event
  | [] => []
  | event :: earlier => event :: (latestOf earlier).filter (·.region ≠ event.region)

/-- `previous_search`: the sample of the latest record that has one for the
request. -/
def previousSearch (request : Request) (events : List Event) : Option Sample :=
  (latestOf events.reverse).findSome? fun event => event.samples.find? (·.request = request)

/-- `_distance(pos, waypoint) <= 2` -/
def Within (x z : ℚ) (w : Waypoint) : Prop := (x - w.1) ^ 2 + (z - w.2) ^ 2 ≤ 4

instance (x z : ℚ) (w : Waypoint) : Decidable (Within x z w) := inferInstanceAs (Decidable (_ ≤ _))

/-- `[math.floor(value) for value in pos]` -/
def Position.block (pos : Position) : Int × Int × Int := (⌊pos.x⌋, ⌊pos.y⌋, ⌊pos.z⌋)

/-- A search on its way. -/
structure Search where
  origin : Position
  route : List Waypoint
  index : Nat
  /-- where the last sample was taken -/
  scanned : Option Position

/-- The waypoint that the sample already reached is not visited again. -/
def resumeIndex (route : List Waypoint) (sample : Sample) : Nat :=
  match route[sample.routeIndex]? with
  | some w => if Within sample.pos.1 sample.pos.2.2 w then sample.routeIndex + 1 else sample.routeIndex
  | none => sample.routeIndex

/-- How `search` starts. -/
def Search.start (request : Request) (events : List Event) (pos : Position) (restart : Bool) :
    Except String Search :=
  match if restart then none else previousSearch request events with
  | some sample =>
      (waypoints request.region sample.routeOrigin request.radius).map fun route =>
        ⟨sample.routeOrigin, route, resumeIndex route sample, none⟩
  | none => (waypoints request.region pos request.radius).map fun route => ⟨pos, route, 0, none⟩

/-- What a scan records. -/
def Search.record (search : Search) (request : Request) (pos : Position) : Event :=
  ⟨(pos.block.1 / 16, pos.block.2.2 / 16), [⟨request, search.origin, search.index, pos.block⟩]⟩

/-! ## Runs -/

/-- The events since a survey began, the search that is active, and where the
samples of the survey were taken. -/
structure World where
  since : List Event
  active : Option Search
  taken : List Position

section

variable (request : Request) (before : List Event)

/-- A step of a survey that began after the events `before`. -/
inductive Step : World → World → Prop
  /-- `scan`, to its end -/
  | scan {w : World} {search : Search} (pos : Position) (hactive : w.active = some search) :
      Step w ⟨w.since ++ [search.record request pos], some { search with scanned := some pos },
        w.taken ++ [pos]⟩
  /-- the last sample was taken at the next waypoint -/
  | advance {w : World} {search : Search} {pos : Position} {next : Waypoint}
      (hactive : w.active = some search) (hscanned : search.scanned = some pos)
      (hnext : search.route[search.index]? = some next) (hwithin : Within pos.x pos.z next) :
      Step w { w with active := some { search with index := search.index + 1 } }
  /-- the search ends, for whatever reason -/
  | stop {w : World} : Step w { w with active := none }
  /-- the survey is resumed from a sample of its own -/
  | resume {w : World} {search : Search} {sample : Sample} (pos : Position)
      (hidle : w.active = none) (hfound : previousSearch request (before ++ w.since) = some sample)
      (hown : ∃ event ∈ w.since, sample ∈ event.samples)
      (hstart : Search.start request (before ++ w.since) pos false = .ok search) :
      Step w { w with active := some search }
  /-- something else is recorded -/
  | other {w : World} (event : Event) (hother : ∀ sample ∈ event.samples, sample.request ≠ request) :
      Step w { w with since := w.since ++ [event] }

/-- A sample was taken within two blocks of the waypoint, by its position or
by the block it was recorded for. -/
def Sampled (taken : List Position) (w : Waypoint) : Prop :=
  ∃ pos ∈ taken, Within pos.x pos.z w ∨ Within pos.block.1 pos.block.2.2 w

/-- The waypoints up to the index were sampled. -/
def Passed (taken : List Position) (route : List Waypoint) (index : Nat) : Prop :=
  ∀ k < index, ∀ w, route[k]? = some w → Sampled taken w

/-- What a survey keeps. -/
structure Kept (first : Search) (w : World) : Prop where
  active : ∀ search, w.active = some search → search.origin = first.origin ∧
    search.route = first.route ∧ Passed w.taken first.route search.index ∧
    ∀ pos, search.scanned = some pos → pos ∈ w.taken
  samples : ∀ event ∈ w.since, ∀ sample ∈ event.samples, sample.request = request →
    sample.routeOrigin = first.origin ∧ Passed w.taken first.route sample.routeIndex ∧
    ∃ pos ∈ w.taken, sample.pos = pos.block
  recorded : ∀ pos ∈ w.taken, ∃ event ∈ w.since, ∃ sample ∈ event.samples,
    sample.request = request ∧ sample.pos = pos.block

variable {request before}

theorem Sampled.append {taken more : List Position} {w : Waypoint} (h : Sampled taken w) :
    Sampled (taken ++ more) w := by
  obtain ⟨pos, hpos, hwithin⟩ := h
  exact ⟨pos, List.mem_append_left _ hpos, hwithin⟩

theorem Passed.append {taken more : List Position} {route : List Waypoint} {n : Nat}
    (h : Passed taken route n) : Passed (taken ++ more) route n :=
  fun k hk w hw => (h k hk w hw).append

theorem Passed.succ {taken : List Position} {route : List Waypoint} {n : Nat} {w : Waypoint}
    (h : Passed taken route n) (hw : route[n]? = some w) (hsampled : Sampled taken w) :
    Passed taken route (n + 1) := by
  intro k hk w' hw'
  rcases Nat.lt_succ_iff_lt_or_eq.mp hk with hlt | rfl
  · exact h k hlt w' hw'
  · rw [hw] at hw'
    obtain rfl := Option.some.inj hw'
    exact hsampled

theorem request_of_previousSearch {events : List Event} {sample : Sample}
    (h : previousSearch request events = some sample) : sample.request = request := by
  obtain ⟨event, -, hfind⟩ := List.exists_of_findSome?_eq_some h
  have hrequest := List.find?_some hfind
  exact of_decide_eq_true hrequest

/-- A resumed search follows the route of its sample. -/
theorem start_of_previousSearch {events : List Event} {pos : Position} {search : Search}
    {sample : Sample} (hfound : previousSearch request events = some sample)
    (hstart : Search.start request events pos false = .ok search) :
    waypoints request.region sample.routeOrigin request.radius = .ok search.route ∧
      search.origin = sample.routeOrigin ∧ search.index = resumeIndex search.route sample ∧
      search.scanned = none := by
  rw [Search.start, if_neg Bool.false_ne_true, hfound] at hstart
  obtain ⟨route, hroute, rfl⟩ := map_eq_ok.mp hstart
  exact ⟨hroute, rfl, rfl, rfl⟩

/-- The waypoint that a resumed search leaves out was sampled. -/
theorem Passed.resume {taken : List Position} {route : List Waypoint} {sample : Sample}
    {pos : Position} (h : Passed taken route sample.routeIndex) (hpos : pos ∈ taken)
    (hblock : sample.pos = pos.block) : Passed taken route (resumeIndex route sample) := by
  rw [resumeIndex]
  split
  · next w hw =>
      split
      · next hwithin =>
          rw [hblock] at hwithin
          exact h.succ hw ⟨pos, hpos, .inr hwithin⟩
      · exact h
  · exact h

theorem Kept.step {first : Search} {w w' : World}
    (hfirst : waypoints request.region first.origin request.radius = .ok first.route)
    (h : Kept request first w) (hstep : Step request before w w') : Kept request first w' := by
  cases hstep with
  | @scan search pos hactive =>
      obtain ⟨horigin, hroute, hpassed, hscanned⟩ := h.active search hactive
      refine ⟨?_, fun event hevent sample hsample hrequest => ?_, fun taken htaken => ?_⟩
      · rintro _ ⟨⟩
        refine ⟨horigin, hroute, hpassed.append, ?_⟩
        rintro _ ⟨⟩
        exact List.mem_append_right _ List.mem_cons_self
      · rcases List.mem_append.mp hevent with hevent | hevent
        · obtain ⟨hsorigin, hspassed, taken, htaken, hblock⟩ := h.samples event hevent sample hsample hrequest
          exact ⟨hsorigin, hspassed.append, taken, List.mem_append_left _ htaken, hblock⟩
        · obtain rfl := List.mem_singleton.mp hevent
          obtain rfl := List.mem_singleton.mp hsample
          exact ⟨horigin, hpassed.append, pos, List.mem_append_right _ List.mem_cons_self, rfl⟩
      · rcases List.mem_append.mp htaken with htaken | htaken
        · obtain ⟨event, hevent, hsample⟩ := h.recorded taken htaken
          exact ⟨event, List.mem_append_left _ hevent, hsample⟩
        · obtain rfl := List.mem_singleton.mp htaken
          exact ⟨_, List.mem_append_right _ List.mem_cons_self, _, List.mem_cons_self, rfl, rfl⟩
  | @advance search pos next hactive hscanned hnext hwithin =>
      obtain ⟨horigin, hroute, hpassed, htaken⟩ := h.active search hactive
      refine ⟨?_, h.samples, h.recorded⟩
      rintro _ ⟨⟩
      rw [hroute] at hnext
      exact ⟨horigin, hroute, hpassed.succ hnext ⟨pos, htaken pos hscanned, .inl hwithin⟩, htaken⟩
  | stop =>
      refine ⟨?_, h.samples, h.recorded⟩
      rintro _ ⟨⟩
  | @resume search sample pos hidle hfound hown hstart =>
      obtain ⟨event, hevent, hsample⟩ := hown
      obtain ⟨hsorigin, hspassed, taken, htaken, hblock⟩ :=
        h.samples event hevent sample hsample (request_of_previousSearch hfound)
      obtain ⟨hroute, horigin, hindex, hscanned⟩ := start_of_previousSearch hfound hstart
      rw [hsorigin, hfirst] at hroute
      obtain hroute := Except.ok.inj hroute
      refine ⟨?_, h.samples, h.recorded⟩
      rintro _ ⟨⟩
      refine ⟨horigin.trans hsorigin, hroute.symm, ?_, fun pos hpos => ?_⟩
      · rw [hindex, ← hroute]
        exact hspassed.resume htaken hblock
      · rw [hscanned] at hpos
        cases hpos
  | other event hother =>
      refine ⟨h.active, fun event' hevent' sample hsample hrequest => ?_, fun taken htaken => ?_⟩
      · rcases List.mem_append.mp hevent' with hevent' | hevent'
        · exact h.samples event' hevent' sample hsample hrequest
        · obtain rfl := List.mem_singleton.mp hevent'
          exact absurd hrequest (hother sample hsample)
      · obtain ⟨event', hevent', hsample⟩ := h.recorded taken htaken
        exact ⟨event', List.mem_append_left _ hevent', hsample⟩

theorem Kept.run {first : Search} {w w' : World}
    (hfirst : waypoints request.region first.origin request.radius = .ok first.route)
    (h : Kept request first w) (hrun : Relation.ReflTransGen (Step request before) w w') :
    Kept request first w' := by
  induction hrun with
  | refl => exact h
  | tail _ hstep ih => exact ih.step hfirst hstep

theorem abs_floor_sub_le {x y : ℚ} {n : Int} (h : (x - n) ^ 2 + y ^ 2 ≤ 4) : |⌊x⌋ - n| ≤ 2 := by
  have hsq : (x - n) ^ 2 ≤ 2 ^ 2 := by nlinarith [sq_nonneg y]
  obtain ⟨hlow, hhigh⟩ := abs_le.mp (abs_le_of_sq_le_sq hsq (by norm_num))
  have hfloor : n - 2 ≤ ⌊x⌋ := Int.le_floor.mpr (by
    push_cast
    linarith)
  have hceil : ⌊x⌋ ≤ n + 2 := by
    have hle : ((⌊x⌋ : Int) : ℚ) ≤ ((n + 2 : Int) : ℚ) := by
      push_cast
      linarith [Int.floor_le x]
    exact_mod_cast hle
  exact abs_le.mpr ⟨by linarith, by linarith⟩

theorem floor_within {x z : ℚ} {w : Waypoint} (h : Within x z w) :
    |⌊x⌋ - w.1| ≤ 2 ∧ |⌊z⌋ - w.2| ≤ 2 :=
  ⟨abs_floor_sub_le h, abs_floor_sub_le (by rw [add_comm]; exact h)⟩

/-- A sample for a waypoint was taken in a block at most two blocks away. -/
theorem Sampled.block {taken : List Position} {w : Waypoint} (h : Sampled taken w) :
    ∃ pos ∈ taken, |pos.block.1 - w.1| ≤ 2 ∧ |pos.block.2.2 - w.2| ≤ 2 := by
  obtain ⟨pos, hpos, hwithin | hwithin⟩ := h
  · exact ⟨pos, hpos, floor_within hwithin⟩
  · have hblock := floor_within hwithin
    rw [Int.floor_intCast, Int.floor_intCast] at hblock
    exact ⟨pos, hpos, hblock⟩

end

/-- **A survey covers its region, and stays on its route.** From the search it
began with, through any scans, ends and resumptions from its own samples, with
anything recorded in between: every search follows the same waypoints, and
passes none that no sample was taken within two blocks of. -/
theorem survey_on_route (request : Request) (before : List Event) (pos : Position) (restart : Bool)
    (hregion : request.region.Valid) (hradius : 4 ≤ request.radius ∧ request.radius ≤ 32)
    (hfresh : restart = true ∨ previousSearch request before = none) :
    ∃ first, Search.start request before pos restart = .ok first ∧
      Covers request.region pos request.radius first.route ∧
      ∀ w, Relation.ReflTransGen (Step request before) ⟨[], some first, []⟩ w →
        (∀ taken ∈ w.taken, ∃ event ∈ w.since, ∃ sample ∈ event.samples,
          sample.request = request ∧ sample.pos = taken.block) ∧
        ∀ search, w.active = some search → search.route = first.route ∧
          ∀ k < search.index, ∀ next, search.route[k]? = some next →
            Sampled w.taken next ∧
            ∃ taken ∈ w.taken, |taken.block.1 - next.1| ≤ 2 ∧ |taken.block.2.2 - next.2| ≤ 2 := by
  obtain ⟨route, hroute, hcovers⟩ := waypoints_cover hregion pos hradius.1
  have hstart : Search.start request before pos restart = .ok ⟨pos, route, 0, none⟩ := by
    rcases hfresh with rfl | hnone
    · rw [Search.start, if_pos rfl, hroute]
      rfl
    · rw [Search.start, hnone, ite_self, hroute]
      rfl
  refine ⟨_, hstart, hcovers, fun w hrun => ?_⟩
  have hkept : Kept request ⟨pos, route, 0, none⟩ w := by
    refine Kept.run hroute ⟨?_, fun _ h => absurd h List.not_mem_nil,
      fun _ h => absurd h List.not_mem_nil⟩ hrun
    rintro _ ⟨⟩
    exact ⟨rfl, rfl, fun k hk => absurd hk (Nat.not_lt_zero k), fun _ h => by cases h⟩
  refine ⟨hkept.recorded, fun search hactive => ?_⟩
  obtain ⟨-, heq, hpassed, -⟩ := hkept.active search hactive
  refine ⟨heq, fun k hk next hnext => ?_⟩
  rw [heq] at hnext
  have hsampled := hpassed k hk next hnext
  exact ⟨hsampled, hsampled.block⟩

/-- A survey of nine by five blocks from its far corner. -/
theorem small_survey :
    ∃ first, Search.start ⟨⟨(0, 0), (8, 4)⟩, .surface, 4, none⟩ [] ⟨17 / 2, 64, 9 / 2⟩ false = .ok first ∧
      Covers ⟨(0, 0), (8, 4)⟩ ⟨17 / 2, 64, 9 / 2⟩ 4 first.route := by
  obtain ⟨first, hstart, hcovers, -⟩ := survey_on_route ⟨⟨(0, 0), (8, 4)⟩, .surface, 4, none⟩ []
    ⟨17 / 2, 64, 9 / 2⟩ false ⟨by decide, by decide, by decide, by decide⟩ (by decide) (.inr rfl)
  exact ⟨first, hstart, hcovers⟩

end Survey

end MineBot
