import Mathlib

/-!
# Interleaved lists

A list of entries that belong to sources, told apart by a key. What one source
gave is a `fibre` of the list; an interleaving is fixed by its fibres up to the
order between sources, and a list that goes through its sources in order is the
concatenation of its fibres (`flatMap_fibre`).
-/

namespace MineBot

namespace Interleaving

variable {α β : Type*} (key : α → Nat)

/-- The entries of one source. -/
def fibre (l : List α) (i : Nat) : List α := l.filter fun a => key a = i

variable {key} {l l' : List α} {a : α} {i n : Nat}

@[simp] theorem fibre_nil : fibre key [] i = [] := rfl

theorem fibre_append : fibre key (l ++ l') i = fibre key l i ++ fibre key l' i :=
  List.filter_append ..

theorem fibre_cons_self : fibre key (a :: l) (key a) = a :: fibre key l (key a) := by
  simp [fibre]

theorem mem_fibre : a ∈ fibre key l i ↔ a ∈ l ∧ key a = i := by
  simp [fibre]

theorem fibre_filter (p : α → Bool) : fibre key (l.filter p) i = (fibre key l i).filter p := by
  rw [fibre, fibre, List.filter_filter, List.filter_filter]
  simp only [Bool.and_comm]

/-- The last source comes last. -/
theorem filter_lt_append_fibre (hsorted : l.Pairwise fun a b => key a ≤ key b)
    (hlt : ∀ a ∈ l, key a < n + 1) : l.filter (fun a => key a < n) ++ fibre key l n = l := by
  induction l with
  | nil => rfl
  | cons a l ih =>
      obtain ⟨ha, hl⟩ := List.pairwise_cons.mp hsorted
      by_cases hn : key a < n
      · have ih := ih hl fun b hb => hlt b (List.mem_cons_of_mem _ hb)
        rw [List.filter_cons_of_pos (by simpa using hn), fibre,
          List.filter_cons_of_neg (by simpa using Nat.ne_of_lt hn), List.cons_append]
        exact congrArg (a :: ·) ih
      · have hlast : ∀ b ∈ a :: l, key b = n := by
          intro b hb
          have hle := hlt b hb
          rcases List.mem_cons.mp hb with rfl | hb
          · omega
          · have := ha b hb
            omega
        have hnone : (a :: l).filter (fun b => key b < n) = [] := by
          refine List.filter_eq_nil_iff.mpr fun b hb => ?_
          simp [hlast b hb]
        rw [hnone, List.nil_append, fibre]
        exact List.filter_eq_self.mpr fun b hb => by simp [hlast b hb]

/-- A list that goes through its sources in order is one source after the
other. -/
theorem flatMap_fibre (hsorted : l.Pairwise fun a b => key a ≤ key b) (hlt : ∀ a ∈ l, key a < n) :
    (List.range n).flatMap (fibre key l) = l := by
  induction n generalizing l with
  | zero =>
      cases l with
      | nil => rfl
      | cons a l => exact absurd (hlt a List.mem_cons_self) (Nat.not_lt_zero _)
  | succ n ih =>
      have hfront : (List.range n).flatMap (fibre key l) = l.filter fun a => key a < n := by
        rw [← ih (hsorted.filter _) fun a ha => by simpa using (List.mem_filter.mp ha).2]
        refine List.flatMap_congr fun i hi => ?_
        rw [fibre_filter]
        refine (List.filter_eq_self.mpr fun a ha => ?_).symm
        simpa [(mem_fibre.mp ha).2] using hi
      rw [List.range_succ, List.flatMap_append, hfront, List.flatMap_cons, List.flatMap_nil,
        List.append_nil, filter_lt_append_fibre hsorted hlt]

end Interleaving

end MineBot
