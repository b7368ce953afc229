import Mathlib

/-!
# Tickets

Numbers are drawn from a counter, held for a while by who drew them and then
put out, in any order. What is out has no repetitions (`Drawn`). It is in the
order of the numbers as long as no one puts out a number while a smaller one
is held (`InOrder`).

`held` says which number each holder has; `last` is the counter.
-/

namespace MineBot

namespace Tickets

variable {ι : Type*} {last last' n : Int} {held held' : ι → Option Int} {out : List Int} {w : ι}

/-- The numbers that are out or held were drawn, each of them once. -/
structure Drawn (last : Int) (held : ι → Option Int) (out : List Int) : Prop where
  below : ∀ m ∈ out, m ≤ last
  distinct : out.Nodup
  heldBelow : ∀ w n, held w = some n → n ≤ last
  heldNew : ∀ w n, held w = some n → n ∉ out
  heldDistinct : ∀ w w' n, held w = some n → held w' = some n → w = w'

namespace Drawn

theorem start : Drawn last (fun _ : ι => none) [] where
  below := fun _ hm => nomatch hm
  distinct := List.nodup_nil
  heldBelow := fun _ _ h => nomatch h
  heldNew := fun _ _ h => nomatch h
  heldDistinct := fun _ _ _ h => nomatch h

/-- Holders may leave, and the counter may go on. -/
theorem mono (h : Drawn last held out) (hle : last ≤ last')
    (hheld : ∀ w n, held' w = some n → held w = some n) : Drawn last' held' out where
  below := fun m hm => Int.le_trans (h.below m hm) hle
  distinct := h.distinct
  heldBelow := fun w n hn => Int.le_trans (h.heldBelow w n (hheld w n hn)) hle
  heldNew := fun w n hn => h.heldNew w n (hheld w n hn)
  heldDistinct := fun w w' n hn hn' => h.heldDistinct w w' n (hheld w n hn) (hheld w' n hn')

/-- A number is drawn and held. -/
theorem draw (h : Drawn last held out)
    (hheld : ∀ w' n, held' w' = some n → w' = w ∧ n = last + 1 ∨ held w' = some n) :
    Drawn (last + 1) held' out where
  below := fun m hm => Int.le_add_one (h.below m hm)
  distinct := h.distinct
  heldBelow := by
    intro w' n hn
    rcases hheld w' n hn with ⟨-, rfl⟩ | hold
    · exact Int.le_refl _
    · exact Int.le_add_one (h.heldBelow w' n hold)
  heldNew := by
    intro w' n hn hmem
    rcases hheld w' n hn with ⟨-, rfl⟩ | hold
    · have := h.below _ hmem
      omega
    · exact h.heldNew w' n hold hmem
  heldDistinct := by
    intro w₁ w₂ n h₁ h₂
    rcases hheld w₁ n h₁ with ⟨rfl, hn⟩ | hold₁
    · rcases hheld w₂ n h₂ with ⟨rfl, -⟩ | hold₂
      · rfl
      · have := h.heldBelow w₂ n hold₂
        omega
    · rcases hheld w₂ n h₂ with ⟨rfl, hn⟩ | hold₂
      · have := h.heldBelow w₁ n hold₁
        omega
      · exact h.heldDistinct w₁ w₂ n hold₁ hold₂

/-- A held number is put out. -/
theorem putOut (h : Drawn last held out) (hw : held w = some n)
    (hheld : ∀ w' m, held' w' = some m → w' ≠ w ∧ held w' = some m) :
    Drawn last held' (out ++ [n]) where
  below := by
    intro m hm
    rcases List.mem_append.mp hm with hm | hm
    · exact h.below m hm
    · rw [List.mem_singleton.mp hm]
      exact h.heldBelow w n hw
  distinct := by
    refine List.nodup_append.mpr ⟨h.distinct, List.nodup_singleton _, ?_⟩
    intro m hm m' hm' heq
    rw [List.mem_singleton.mp hm'] at heq
    exact h.heldNew w n hw (heq ▸ hm)
  heldBelow := fun w' m hm => h.heldBelow w' m (hheld w' m hm).2
  heldNew := by
    intro w' m hm hmem
    obtain ⟨hne, hold⟩ := hheld w' m hm
    rcases List.mem_append.mp hmem with hmem | hmem
    · exact h.heldNew w' m hold hmem
    · rw [List.mem_singleton.mp hmem] at hold
      exact hne (h.heldDistinct w' w n hold hw)
  heldDistinct := fun w₁ w₂ m h₁ h₂ => h.heldDistinct w₁ w₂ m (hheld w₁ m h₁).2 (hheld w₂ m h₂).2

/-- A number is drawn and put out at once. -/
theorem push (h : Drawn last held out)
    (hheld : ∀ w n, held' w = some n → held w = some n) :
    Drawn (last + 1) held' (out ++ [last + 1]) where
  below := by
    intro m hm
    rcases List.mem_append.mp hm with hm | hm
    · exact Int.le_add_one (h.below m hm)
    · exact Int.le_of_eq (List.mem_singleton.mp hm)
  distinct := by
    refine List.nodup_append.mpr ⟨h.distinct, List.nodup_singleton _, ?_⟩
    intro m hm m' hm' heq
    rw [List.mem_singleton.mp hm'] at heq
    have := h.below m hm
    omega
  heldBelow := fun w n hn => Int.le_add_one (h.heldBelow w n (hheld w n hn))
  heldNew := by
    intro w n hn hmem
    rcases List.mem_append.mp hmem with hmem | hmem
    · exact h.heldNew w n (hheld w n hn) hmem
    · have hle := h.heldBelow w n (hheld w n hn)
      rw [List.mem_singleton.mp hmem] at hle
      omega
  heldDistinct := fun w w' n hn hn' => h.heldDistinct w w' n (hheld w n hn) (hheld w' n hn')

end Drawn

/-- What is out is in order, and what is held comes after it. -/
structure InOrder (held : ι → Option Int) (out : List Int) : Prop where
  increasing : out.Pairwise (· < ·)
  ahead : ∀ w n, held w = some n → ∀ m ∈ out, m < n

namespace InOrder

theorem start : InOrder (fun _ : ι => none) [] where
  increasing := .nil
  ahead := fun _ _ h => nomatch h

theorem mono (h : InOrder held out) (hheld : ∀ w n, held' w = some n → held w = some n) :
    InOrder held' out where
  increasing := h.increasing
  ahead := fun w n hn => h.ahead w n (hheld w n hn)

/-- A number just drawn comes after all that is out. -/
theorem draw (h : InOrder held out) (hdrawn : Drawn last held out)
    (hheld : ∀ w' n, held' w' = some n → w' = w ∧ n = last + 1 ∨ held w' = some n) :
    InOrder held' out where
  increasing := h.increasing
  ahead := by
    intro w' n hn m hm
    rcases hheld w' n hn with ⟨-, rfl⟩ | hold
    · exact Int.lt_add_one_of_le (hdrawn.below m hm)
    · exact h.ahead w' n hold m hm

/-- A number is put out that is larger than all before it and smaller than
all that stay held. -/
theorem snoc (h : InOrder held out) (hnew : ∀ m ∈ out, m < n)
    (hheld : ∀ w' m, held' w' = some m → held w' = some m ∧ n < m) : InOrder held' (out ++ [n]) where
  increasing := by
    refine List.pairwise_append.mpr ⟨h.increasing, List.pairwise_singleton _ _, ?_⟩
    intro m hm m' hm'
    rw [List.mem_singleton.mp hm']
    exact hnew m hm
  ahead := by
    intro w' m hm m' hm'
    obtain ⟨hold, hlt⟩ := hheld w' m hm
    rcases List.mem_append.mp hm' with hm' | hm'
    · exact h.ahead w' m hold m' hm'
    · rw [List.mem_singleton.mp hm']
      exact hlt

end InOrder

end Tickets

end MineBot
