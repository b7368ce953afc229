import Mathlib

/-!
# The route of a region survey

`SpatialExploration._waypoints` covers a region in strips: points of one axis
at most the spacing apart, row after row, every other row backwards, from the
corner nearest the start.

The points of an axis are a chain of small steps (`isChain_axis`), which no
point between its ends is far from (`exists_near`); the rows are joined where
the last one ended (`isChain_strips`).
-/

namespace MineBot

namespace Survey

/-! ## Waypoints -/

/-- A position: floats are the numbers they denote. -/
structure Position where
  x : ℚ
  y : ℚ
  z : ℚ

abbrev Waypoint := Int × Int

structure Region where
  min : Int × Int
  max : Int × Int
deriving DecidableEq

/-- `list(range(start, stop, step))` -/
def pyRange (start stop : Int) (step : Nat) : List Int :=
  (List.range (((stop - start).toNat + step - 1) / step)).map fun i : Nat => start + step * i

def spacing (radius : Nat) : Nat := max 4 (min 16 radius)

/-- The points of an axis. -/
def axis (spacing : Nat) (a b : Int) : List Int := pyRange a b spacing ++ [b]

/-- The points from the end that is nearer. -/
def fromNearer (pos : ℚ) (points : List Int) : List Int :=
  let first : Int := points.head?.getD 0
  let last : Int := points.getLast?.getD 0
  if |pos - last| < |pos - first| then points.reverse else points

/-- `[(x, z) for index, z in enumerate(zs) for x in (xs if index % 2 == 0 else list(reversed(xs)))]` -/
def strips (xs zs : List Int) : List Waypoint :=
  zs.zipIdx.flatMap fun e => (if e.2 % 2 = 0 then xs else xs.reverse).map (·, e.1)

/-- `_waypoints` of a region. -/
def waypoints (region : Region) (pos : Position) (radius : Nat) : Except String (List Waypoint) :=
  let low := region.min
  let high := region.max
  if high.1 < low.1 || 256 < high.1 - low.1 || high.2 < low.2 || 256 < high.2 - low.2 then
    .error "region min/max must be ordered [x,z], at most 256 blocks per side"
  else
    let xs := axis (spacing radius) low.1 high.1
    let zs := axis (spacing radius) low.2 high.2
    .ok (strips (fromNearer pos.x xs) (fromNearer pos.z zs))

/-! ## An axis -/

/-- A step along an axis. -/
def Close (s : Nat) (p q : Int) : Prop := p ≠ q ∧ |p - q| ≤ s

theorem Close.symm {s : Nat} {p q : Int} (h : Close s p q) : Close s q p :=
  ⟨h.1.symm, by rw [abs_sub_comm]; exact h.2⟩

section

variable {s : Nat} {a b : Int}

theorem pyRange_bounds (hs : 0 < s) (hab : a ≤ b) :
    ∃ n : Nat, pyRange a b s = (List.range n).map (fun i : Nat => a + s * i) ∧ b ≤ a + s * n ∧
      ∀ i < n, a + s * i < b := by
  obtain ⟨n, hn⟩ : ∃ n, n = ((b - a).toNat + s - 1) / s := ⟨_, rfl⟩
  have hd : ((b - a).toNat : Int) = b - a := Int.toNat_of_nonneg (sub_nonneg.mpr hab)
  refine ⟨n, by rw [hn, pyRange], ?_, fun i hi => ?_⟩
  · have hlt := Nat.lt_div_mul_add hs (a := (b - a).toNat + s - 1)
    rw [← hn, Nat.mul_comm] at hlt
    have hle : ((b - a).toNat : Int) ≤ s * n := by
      exact_mod_cast (show (b - a).toNat ≤ s * n by omega)
    linarith
  · have hle : s * (i + 1) ≤ (b - a).toNat + s - 1 := by
      rw [hn] at hi
      exact (Nat.mul_le_mul_left s hi).trans (Nat.mul_div_le ..)
    rw [Nat.mul_succ] at hle
    have hlt : (s * i : Int) < ((b - a).toNat : Int) := by
      exact_mod_cast (show s * i < (b - a).toNat by omega)
    linarith

theorem isChain_axis (hs : 0 < s) (hab : a ≤ b) :
    (axis s a b).IsChain fun p q : Int => p < q ∧ q - p ≤ s := by
  obtain ⟨n, hrange, hlast, hlt⟩ := pyRange_bounds hs hab
  rw [axis, hrange]
  refine .append ?_ (.singleton b) fun x hx y hy => ?_
  · refine List.isChain_iff_getElem.mpr fun i hi => ?_
    simp only [List.getElem_map, List.getElem_range]
    push_cast
    constructor <;> nlinarith
  · cases n with
    | zero => cases hx
    | succ n =>
        rw [List.range_succ, List.map_append, List.map_singleton, List.getLast?_append,
          List.getLast?_singleton, Option.some_or, Option.mem_some_iff] at hx
        rw [List.head?_singleton, Option.mem_some_iff] at hy
        subst hx hy
        refine ⟨hlt n n.lt_succ_self, ?_⟩
        push_cast at hlast
        linarith

theorem head?_axis (hs : 0 < s) (hab : a ≤ b) : (axis s a b).head? = some a := by
  obtain ⟨n, hrange, hlast, -⟩ := pyRange_bounds hs hab
  rw [axis, hrange]
  cases n with
  | zero =>
      have : a = b := by
        push_cast at hlast
        linarith
      rw [this]
      rfl
  | succ n =>
      rw [List.range_succ_eq_map, List.map_cons, List.cons_append, List.head?_cons]
      simp

theorem getLast?_axis : (axis s a b).getLast? = some b := by
  rw [axis, List.getLast?_append, List.getLast?_singleton, Option.some_or]

theorem pairwise_axis (hs : 0 < s) (hab : a ≤ b) : (axis s a b).Pairwise (· < ·) :=
  List.isChain_iff_pairwise.mp ((isChain_axis hs hab).imp fun _ _ h => h.1)

/-- The points of an axis lie between its ends. -/
theorem mem_axis (hs : 0 < s) (hab : a ≤ b) {p : Int} (hp : p ∈ axis s a b) : a ≤ p ∧ p ≤ b := by
  obtain ⟨n, hrange, -, hlt⟩ := pyRange_bounds hs hab
  rw [axis, hrange] at hp
  rcases List.mem_append.mp hp with hp | hp
  · obtain ⟨i, hi, rfl⟩ := List.mem_map.mp hp
    refine ⟨?_, (hlt i (List.mem_range.mp hi)).le⟩
    have : (0 : Int) ≤ s * i := by positivity
    linarith
  · rw [List.mem_singleton.mp hp]
    exact ⟨hab, le_rfl⟩

/-- No point between the ends of a chain of small steps is far from it. -/
theorem exists_near {l : List Int} (hl : l.IsChain fun p q : Int => p < q ∧ q - p ≤ s) {x : Int}
    (hfirst : ∀ p ∈ l.head?, p ≤ x) (hlast : ∃ q ∈ l.getLast?, x ≤ q) :
    ∃ p ∈ l, 2 * |x - p| ≤ s := by
  induction l with
  | nil =>
      obtain ⟨q, hq, -⟩ := hlast
      cases hq
  | cons p l ih =>
      have hp : p ≤ x := hfirst p rfl
      cases l with
      | nil =>
          obtain ⟨q, hq, hx⟩ := hlast
          obtain rfl : p = q := Option.some.inj hq
          exact ⟨p, List.mem_cons_self, by rw [le_antisymm hx hp]; simp⟩
      | cons q l =>
          obtain ⟨⟨hlt, hstep⟩, hrest⟩ := List.isChain_cons_cons.mp hl
          by_cases hx : q ≤ x
          · obtain ⟨r, hr, hnear⟩ := ih hrest (fun r hr => by
              obtain rfl : q = r := Option.some.inj hr
              exact hx) (by rwa [List.getLast?_cons_cons] at hlast)
            exact ⟨r, List.mem_cons_of_mem _ hr, hnear⟩
          · rcases le_total (2 * (x - p)) s with hle | hge
            · exact ⟨p, List.mem_cons_self, by rwa [abs_of_nonneg (sub_nonneg.mpr hp)]⟩
            · refine ⟨q, List.mem_cons_of_mem _ List.mem_cons_self, ?_⟩
              rw [abs_of_neg (by linarith)]
              linarith

/-! ## From the nearer end -/

/-- The one of two ends that is nearest. -/
structure NearestEnd (pos : ℚ) (a b c : Int) : Prop where
  isEnd : c = a ∨ c = b
  first : |pos - c| ≤ |pos - a|
  last : |pos - c| ≤ |pos - b|

theorem mem_fromNearer {pos : ℚ} {points : List Int} {p : Int} :
    p ∈ fromNearer pos points ↔ p ∈ points := by
  rw [fromNearer]
  split
  · exact List.mem_reverse
  · exact Iff.rfl

theorem nodup_fromNearer {pos : ℚ} {points : List Int} (h : points.Nodup) :
    (fromNearer pos points).Nodup := by
  rw [fromNearer]
  split
  · exact List.nodup_reverse.mpr h
  · exact h

theorem isChain_fromNearer {pos : ℚ} {points : List Int} (h : points.IsChain (Close s)) :
    (fromNearer pos points).IsChain (Close s) := by
  rw [fromNearer]
  split
  · exact List.isChain_reverse.mpr (h.imp fun _ _ hclose => hclose.symm)
  · exact h

theorem head?_fromNearer (hs : 0 < s) (hab : a ≤ b) (pos : ℚ) :
    ∃ c, (fromNearer pos (axis s a b)).head? = some c ∧ NearestEnd pos a b c := by
  have hfirst := head?_axis hs hab
  have hlast : (axis s a b).getLast? = some b := getLast?_axis
  rw [fromNearer, hfirst, hlast]
  simp only [Option.getD_some]
  split
  · next h =>
      refine ⟨b, ?_, .inr rfl, h.le, le_rfl⟩
      rw [List.head?_reverse, hlast]
  · next h => exact ⟨a, hfirst, .inl rfl, le_rfl, not_lt.mp h⟩

theorem close_axis (hs : 0 < s) (hab : a ≤ b) : (axis s a b).IsChain (Close s) :=
  (isChain_axis hs hab).imp fun p q h => ⟨h.1.ne, by
    rw [abs_sub_comm, abs_of_nonneg (sub_nonneg.mpr h.1.le)]
    exact h.2⟩

end

/-! ## Strips -/

/-- The waypoints differ on one axis, by no more than the spacing. -/
def Adjacent (s : Nat) (p q : Waypoint) : Prop :=
  p.2 = q.2 ∧ Close s p.1 q.1 ∨ p.1 = q.1 ∧ Close s p.2 q.2

section

variable {s : Nat} {xs zs : List Int}

/-- A row, and the others the other way round. -/
theorem strips_cons (xs : List Int) (z : Int) (zs : List Int) :
    strips xs (z :: zs) = xs.map (·, z) ++ strips xs.reverse zs := by
  have hshift : ∀ (zs : List Int) (k : Nat),
      (zs.zipIdx (k + 1)).flatMap (fun e => (if e.2 % 2 = 0 then xs else xs.reverse).map (·, e.1)) =
        (zs.zipIdx k).flatMap (fun e =>
          (if e.2 % 2 = 0 then xs.reverse else xs.reverse.reverse).map (·, e.1)) := by
    intro zs
    induction zs with
    | nil => exact fun _ => rfl
    | cons z zs ih =>
        intro k
        rw [List.zipIdx_cons, List.zipIdx_cons, List.flatMap_cons, List.flatMap_cons, ih,
          List.reverse_reverse]
        rcases Nat.mod_two_eq_zero_or_one k with hk | hk
        · have hk' : (k + 1) % 2 = 1 := by omega
          simp [hk, hk']
        · have hk' : (k + 1) % 2 = 0 := by omega
          simp [hk, hk']
  rw [strips, List.zipIdx_cons, List.flatMap_cons, hshift, strips]
  rfl

theorem mem_strips {p : Waypoint} : p ∈ strips xs zs ↔ p.1 ∈ xs ∧ p.2 ∈ zs := by
  induction zs generalizing xs with
  | nil => simp [strips]
  | cons z zs ih =>
      obtain ⟨x, z'⟩ := p
      rw [strips_cons, List.mem_append, ih, List.mem_map, List.mem_reverse, List.mem_cons]
      constructor
      · rintro (⟨x', hx', heq⟩ | ⟨hx, hz⟩)
        · cases heq
          exact ⟨hx', .inl rfl⟩
        · exact ⟨hx, .inr hz⟩
      · rintro ⟨hx, rfl | hz⟩
        · exact .inl ⟨x, hx, rfl⟩
        · exact .inr ⟨hx, hz⟩

theorem nodup_strips (hxs : xs.Nodup) (hzs : zs.Nodup) : (strips xs zs).Nodup := by
  induction zs generalizing xs with
  | nil => exact List.nodup_nil
  | cons z zs ih =>
      obtain ⟨hz, hzs⟩ := List.nodup_cons.mp hzs
      rw [strips_cons]
      refine List.nodup_append'.mpr ⟨?_, ih (List.nodup_reverse.mpr hxs) hzs, ?_⟩
      · exact hxs.map fun x x' h => (Prod.mk.inj h).1
      · intro p hp hp'
        obtain ⟨x, -, rfl⟩ := List.mem_map.mp hp
        exact hz (mem_strips.mp hp').2

theorem head?_strips {x z : Int} (hx : xs.head? = some x) (hz : zs.head? = some z) :
    (strips xs zs).head? = some (x, z) := by
  obtain ⟨xs, rfl⟩ := List.head?_eq_some_iff.mp hx
  obtain ⟨zs, rfl⟩ := List.head?_eq_some_iff.mp hz
  rw [strips_cons]
  rfl

/-- The rows are joined where one ends and the next begins. -/
theorem isChain_strips (hxs : xs.IsChain (Close s)) (hzs : zs.IsChain (Close s)) :
    (strips xs zs).IsChain (Adjacent s) := by
  induction zs generalizing xs with
  | nil => exact .nil
  | cons z zs ih =>
      have hreverse : xs.reverse.IsChain (Close s) :=
        List.isChain_reverse.mpr (hxs.imp fun _ _ h => h.symm)
      rw [strips_cons]
      refine .append ?_ (ih hreverse hzs.tail) fun p hp q hq => ?_
      · exact (List.isChain_map _).mpr (hxs.imp fun _ _ h => .inl ⟨rfl, h⟩)
      · rw [List.getLast?_map] at hp
        obtain ⟨x, hx, rfl⟩ := Option.map_eq_some_iff.mp hp
        cases zs with
        | nil => cases hq
        | cons z' zs =>
            have hhead : xs.reverse.head? = some x := by rw [List.head?_reverse, hx]
            rw [Option.mem_def, head?_strips hhead rfl] at hq
            obtain rfl := Option.some.inj hq
            exact .inr ⟨rfl, (List.isChain_cons_cons.mp hzs).1⟩

end

/-! ## Routes -/

/-- Both corners are in order, and no more than 256 blocks apart. -/
structure Region.Valid (region : Region) : Prop where
  x : region.min.1 ≤ region.max.1
  z : region.min.2 ≤ region.max.2
  width : region.max.1 - region.min.1 ≤ 256
  depth : region.max.2 - region.min.2 ≤ 256

def Region.Contains (region : Region) (p : Waypoint) : Prop :=
  (region.min.1 ≤ p.1 ∧ p.1 ≤ region.max.1) ∧ region.min.2 ≤ p.2 ∧ p.2 ≤ region.max.2

/-- What the waypoints of a region are for. -/
structure Covers (region : Region) (pos : Position) (radius : Nat) (route : List Waypoint) :
    Prop where
  distinct : route.Nodup
  inside : ∀ p ∈ route, region.Contains p
  near : ∀ p, region.Contains p → ∃ w ∈ route,
    2 * |p.1 - w.1| ≤ spacing radius ∧ 2 * |p.2 - w.2| ≤ spacing radius
  corner : ∃ w, route.head? = some w ∧ NearestEnd pos.x region.min.1 region.max.1 w.1 ∧
    NearestEnd pos.z region.min.2 region.max.2 w.2
  strides : route.IsChain (Adjacent (spacing radius))
  spaced : spacing radius ≤ radius

/-- **The waypoints cover the region.** -/
theorem waypoints_cover {region : Region} (hregion : region.Valid) (pos : Position) {radius : Nat}
    (hradius : 4 ≤ radius) :
    ∃ route, waypoints region pos radius = .ok route ∧ Covers region pos radius route := by
  have hs : 0 < spacing radius := lt_max_of_lt_left (by decide)
  refine ⟨_, if_neg ?_, ?_, fun p hp => ?_, fun p hp => ?_, ?_, ?_, max_le hradius (min_le_right ..)⟩
  · have := hregion.x
    have := hregion.z
    have := hregion.width
    have := hregion.depth
    simp only [Bool.or_eq_true, decide_eq_true_eq]
    omega
  · exact nodup_strips (nodup_fromNearer (pairwise_axis hs hregion.x).nodup)
      (nodup_fromNearer (pairwise_axis hs hregion.z).nodup)
  · obtain ⟨hx, hz⟩ := mem_strips.mp hp
    exact ⟨mem_axis hs hregion.x (mem_fromNearer.mp hx), mem_axis hs hregion.z (mem_fromNearer.mp hz)⟩
  · obtain ⟨⟨hx, hx'⟩, hz, hz'⟩ := hp
    obtain ⟨x, hxmem, hxnear⟩ := exists_near (isChain_axis hs hregion.x)
      (fun q hq => by
        rw [head?_axis hs hregion.x, Option.mem_some_iff] at hq
        exact hq ▸ hx) ⟨_, getLast?_axis, hx'⟩
    obtain ⟨z, hzmem, hznear⟩ := exists_near (isChain_axis hs hregion.z)
      (fun q hq => by
        rw [head?_axis hs hregion.z, Option.mem_some_iff] at hq
        exact hq ▸ hz) ⟨_, getLast?_axis, hz'⟩
    exact ⟨(x, z), mem_strips.mpr ⟨mem_fromNearer.mpr hxmem, mem_fromNearer.mpr hzmem⟩,
      hxnear, hznear⟩
  · obtain ⟨x, hx, hxnearest⟩ := head?_fromNearer hs hregion.x pos.x
    obtain ⟨z, hz, hznearest⟩ := head?_fromNearer hs hregion.z pos.z
    exact ⟨(x, z), head?_strips hx hz, hxnearest, hznearest⟩
  · exact isChain_strips (isChain_fromNearer (close_axis hs hregion.x))
      (isChain_fromNearer (close_axis hs hregion.z))

end Survey

end MineBot
