import Mathlib

/-!
# Tables of forwarding pointers

A table in which an entry may point on to another one. Following the
pointers from an entry either ends at an entry that points nowhere, or
runs out of the table, or never ends. A table is *settled* if the first
is the case everywhere.

An edit changes one entry. Each edit that keeps a table settled is
characterised by what the entry had to do with the others before:
`Settled.redirect_iff` for a new pointer, `Settled.erase_iff` for an
entry that is taken out.
-/

namespace MineBot

namespace Forwarding

variable {κ : Type*}

/-- `l` is reached from `k` along the pointers of `p`, where `none` is no
entry and `some none` an entry that points nowhere. -/
def Follows (p : κ → Option (Option κ)) : κ → κ → Prop :=
  Relation.ReflTransGen fun a b => p a = some (some b)

/-- Following the pointers of `p` from `k` ends at the entry `r`. -/
inductive Resolves (p : κ → Option (Option κ)) : κ → κ → Prop where
  | root {k : κ} : p k = some none → Resolves p k k
  | step {k l r : κ} : p k = some (some l) → Resolves p l r → Resolves p k r

/-- From each entry the pointers lead to an entry that points nowhere. -/
def Settled (p : κ → Option (Option κ)) : Prop :=
  ∀ k, (p k).isSome → ∃ r, Resolves p k r

variable {p q : κ → Option (Option κ)} {k l r s x : κ}

theorem Resolves.isSome (h : Resolves p k r) : (p k).isSome := by
  cases h with
  | root h => rw [h]; rfl
  | step h _ => rw [h]; rfl

theorem Follows.eq_of_root (h : Follows p k l) (hk : p k = some none) : l = k := by
  rcases Relation.ReflTransGen.cases_head h with heq | ⟨m, hm, _⟩
  · exact heq.symm
  · rw [hk] at hm
    cases hm

theorem Resolves.next (h : Resolves p k r) (hk : p k = some (some l)) : Resolves p l r := by
  cases h with
  | root hroot => rw [hk] at hroot; cases hroot
  | step hstep hrest =>
      obtain rfl : l = _ := by simpa [hk] using hstep
      exact hrest

/-- A chain depends on the entries it visits. -/
theorem Resolves.transfer (h : Resolves p k r) (hsame : ∀ l, Follows p k l → q l = p l) :
    Resolves q k r := by
  induction h with
  | root hk => exact .root ((hsame _ .refl).trans hk)
  | step hk _ ih =>
      refine .step ((hsame _ .refl).trans hk) (ih fun m hm => hsame m ?_)
      exact .head hk hm

/-- Chains that come to a changed entry go on as it does. -/
theorem Resolves.rebase (h : Resolves p k r) (hsame : ∀ l, l ≠ x → q l = p l)
    (hx : Resolves q x s) : ∃ t, Resolves q k t := by
  induction h with
  | @root k hk =>
      by_cases hkx : k = x
      · exact ⟨s, hkx ▸ hx⟩
      · exact ⟨k, .root ((hsame k hkx).trans hk)⟩
  | @step k l _ hk _ ih =>
      by_cases hkx : k = x
      · exact ⟨s, hkx ▸ hx⟩
      · obtain ⟨t, ht⟩ := ih
        exact ⟨t, .step ((hsame k hkx).trans hk) ht⟩

/-- A chain that ends does not come back to where it started. -/
theorem Resolves.no_return (h : Resolves p k r) (hk : p k = some (some l)) :
    ¬ Follows p l k := by
  induction h generalizing l with
  | root hroot => exact absurd (hroot.symm.trans hk) (by simp)
  | @step k m _ hkm _ ih =>
      obtain rfl : m = l := by simpa [hkm] using hk
      intro hback
      rcases Relation.ReflTransGen.cases_head hback with heq | ⟨n, hmn, hnk⟩
      · exact ih (heq ▸ hkm) .refl
      · exact ih hmn (hnk.tail hkm)

theorem Settled.congr (h : Settled p) (hsame : ∀ l, q l = p l) : Settled q :=
  (funext hsame : q = p) ▸ h

/-- A new entry, or one that now points nowhere. -/
theorem Settled.extend (h : Settled p) (hsame : ∀ l, l ≠ x → q l = p l)
    (hx : q x = some none) : Settled q := by
  intro k hk
  by_cases hkx : k = x
  · subst hkx
    exact ⟨k, .root hx⟩
  · rw [hsame k hkx] at hk
    obtain ⟨r, hr⟩ := h k hk
    exact hr.rebase hsame (.root hx)

/-- The part of a path before it first comes to `x`. -/
theorem follows_of_same (hsame : ∀ l, l ≠ x → q l = p l) (h : Follows p k x) : Follows q k x := by
  induction h using Relation.ReflTransGen.head_induction_on with
  | refl => exact .refl
  | @head a b hab _ ih =>
      by_cases hax : a = x
      · exact hax ▸ .refl
      · exact .head ((hsame a hax).trans hab) ih

/-- **A new pointer.** Where `x` is made to point to an entry `s`, the table
stays settled exactly if the chain of `s` did not come to `x`. -/
theorem Settled.redirect_iff (h : Settled p) (hs : (p s).isSome)
    (hsame : ∀ l, l ≠ x → q l = p l) (hx : q x = some (some s)) :
    Settled q ↔ ¬ Follows p s x := by
  constructor
  · intro hq hcycle
    obtain ⟨r, hr⟩ := hq x (by rw [hx]; rfl)
    exact hr.no_return hx (follows_of_same hsame hcycle)
  · intro havoid k hk
    obtain ⟨r, hr⟩ := h s hs
    have hs' : Resolves q s r := hr.transfer fun l hl => hsame l fun hlx => havoid (hlx ▸ hl)
    by_cases hkx : k = x
    · exact ⟨r, hkx ▸ .step hx hs'⟩
    · rw [hsame k hkx] at hk
      obtain ⟨t, ht⟩ := h k hk
      exact ht.rebase hsame (.step hx hs')

/-- **An entry taken out.** The table stays settled exactly if no entry
pointed to `x`. -/
theorem Settled.erase_iff (h : Settled p) (hsame : ∀ l, l ≠ x → q l = p l) (hx : q x = none) :
    Settled q ↔ ∀ k, p k ≠ some (some x) := by
  constructor
  · intro hq k hk
    have hkx : k ≠ x := by
      rintro rfl
      obtain ⟨r, hr⟩ := h k (by rw [hk]; rfl)
      exact hr.no_return hk .refl
    have hqk : q k = some (some x) := (hsame k hkx).trans hk
    obtain ⟨r, hr⟩ := hq k (by rw [hqk]; rfl)
    have := (hr.next hqk).isSome
    rw [hx] at this
    cases this
  · intro halone k hk
    have hkx : k ≠ x := fun hkx => by rw [hkx, hx] at hk; cases hk
    rw [hsame k hkx] at hk
    obtain ⟨r, hr⟩ := h k hk
    refine ⟨r, hr.transfer fun l hl => hsame l fun hlx => ?_⟩
    subst hlx
    rcases Relation.ReflTransGen.cases_tail hl with heq | ⟨m, _, hm⟩
    · exact hkx heq.symm
    · exact halone m hm

end Forwarding

end MineBot
