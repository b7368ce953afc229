import Mathlib

/-!
# Searches with a frontier

A search holds the states it has visited and those of them that wait to be
expanded, and ends early when it pops a goal. When nothing waits it has visited
what can be reached, and none of it is a goal. `Covers` is the invariant of any
such search, whatever the order it expands in.
-/

namespace MineBot

namespace FrontierSearch

variable {α : Type*}

/-- `x` lies at the end of a chain of steps from a start. -/
def Reach (next : α → α → Prop) (start : α → Prop) (x : α) : Prop :=
  ∃ s, start s ∧ Relation.ReflTransGen next s x

theorem Reach.start {next : α → α → Prop} {start : α → Prop} {x : α} (h : start x) :
    Reach next start x := ⟨x, h, .refl⟩

theorem Reach.step {next : α → α → Prop} {start : α → Prop} {x y : α} (h : Reach next start x)
    (hnext : next x y) : Reach next start y := by
  obtain ⟨s, hs, hchain⟩ := h
  exact ⟨s, hs, hchain.tail hnext⟩

/-- What a search from `start` keeps; a state that does not wait has been
expanded, and was no goal. -/
structure Covers (next : α → α → Prop) (start goal visited waiting : α → Prop) : Prop where
  starts : ∀ x, start x → visited x
  met : ∀ x, waiting x → visited x
  sound : ∀ x, visited x → Reach next start x
  expanded : ∀ x, visited x → waiting x ∨ (¬ goal x ∧ ∀ y, next x y → visited y)

namespace Covers

variable {next : α → α → Prop} {start goal visited waiting visited' waiting' : α → Prop}

/-- The search from which nothing has been expanded. -/
theorem init (h : ∀ x, start x ↔ waiting x) : Covers next start goal start waiting where
  starts _ hx := hx
  met x hx := (h x).mpr hx
  sound _ hx := .start hx
  expanded x hx := .inl ((h x).mp hx)

/-- `x`, which is no goal, no longer waits, and what is new waits. -/
theorem expand (x : α) (h : Covers next start goal visited waiting) (hx : ¬ goal x)
    (hdone : ∀ y, next x y → visited' y) (hkept : ∀ y, visited y → visited' y)
    (hnew : ∀ y, visited' y → visited y ∨ (Reach next start y ∧ waiting' y))
    (hwaits : ∀ y, waiting y → y = x ∨ waiting' y)
    (hmet : ∀ y, waiting' y → waiting y ∨ visited' y) :
    Covers next start goal visited' waiting' where
  starts y hy := hkept y (h.starts y hy)
  met y hy := (hmet y hy).elim (fun hw => hkept y (h.met y hw)) id
  sound y hy := (hnew y hy).elim (h.sound y) And.left
  expanded y hy := by
    rcases hnew y hy with hold | ⟨-, hwait⟩
    · rcases h.expanded y hold with hwait | ⟨hmissed, hnexts⟩
      · rcases hwaits y hwait with rfl | hwait
        · exact .inr ⟨hx, hdone⟩
        · exact .inl hwait
      · exact .inr ⟨hmissed, fun z hz => hkept z (hnexts z hz)⟩
    · exact .inl hwait

/-- When nothing waits, what can be reached has been visited. -/
theorem visited_of_reach {x : α} (h : Covers next start goal visited waiting)
    (hnone : ∀ x, ¬ waiting x) (hx : Reach next start x) : visited x := by
  obtain ⟨s, hs, hchain⟩ := hx
  induction hchain with
  | refl => exact h.starts s hs
  | tail _ hnext ih =>
      rcases h.expanded _ ih with hwait | ⟨-, hdone⟩
      · exact absurd hwait (hnone _)
      · exact hdone _ hnext

/-- When nothing waits, no goal can be reached. -/
theorem missed {x : α} (h : Covers next start goal visited waiting) (hnone : ∀ x, ¬ waiting x)
    (hx : Reach next start x) : ¬ goal x := by
  rcases h.expanded x (h.visited_of_reach hnone hx) with hwait | ⟨hmissed, -⟩
  · exact absurd hwait (hnone x)
  · exact hmissed

end Covers

end FrontierSearch

end MineBot
