import Mathlib

/-!
# Sequencing under a high-water mark

A receiver keeps one number per sender, the highest sequence number it
has taken. An item at or below the mark is a duplicate and is dropped;
an item further above it than one is delivered after a report that the
numbers in between are missing. Independently of any item, the sender
may *concede* a range: the range is reported missing and the mark moves
to its end.

`Ledger s outs m` is what a consumer wants to know of everything the
receiver ever put out, started at `s` and standing at `m`: each number
in between was delivered or reported, nothing was delivered twice or out
of order. Accepting an item always keeps it (`Ledger.accept`). Conceding
a range keeps it exactly when the range does not start above the first
number that is still open (`Ledger.concede`): nothing else fills the
hole below it.
-/

namespace MineBot

namespace HighWater

variable {ε : Type*}

/-- One output of the receiver: an item handed on, or a closed range
reported missing. -/
inductive Mark (ε : Type*) where
  | delivered (e : ε)
  | missing (a b : Int)

/-- The items among the outputs. -/
def items : List (Mark ε) → List ε
  | [] => []
  | .delivered e :: outs => e :: items outs
  | .missing _ _ :: outs => items outs

@[simp] theorem items_append (xs ys : List (Mark ε)) :
    items (xs ++ ys) = items xs ++ items ys := by
  induction xs with
  | nil => rfl
  | cons x xs ih => cases x <;> simp [items, ih]

/-- Accept an item numbered `seq e` at mark `m`. -/
def accept (seq : ε → Int) (m : Int) (e : ε) : List (Mark ε) × Int :=
  if seq e ≤ m then ([], m)
  else
    ((if m + 1 < seq e then [.missing (m + 1) (seq e - 1)] else [])
      ++ [.delivered e], seq e)

/-- How one intake moves the mark: items are accepted and ranges are
conceded, in some order. `C m a b` holds of every concession made. -/
inductive Advance (seq : ε → Int) (C : Int → Int → Int → Prop) :
    Int → List (Mark ε) → Int → Prop where
  | done (m : Int) : Advance seq C m [] m
  | accept {m m' : Int} {outs : List (Mark ε)} (e : ε) :
      Advance seq C (accept seq m e).2 outs m' →
      Advance seq C m ((HighWater.accept seq m e).1 ++ outs) m'
  | concede {m m' : Int} {outs : List (Mark ε)} (a b : Int) :
      C m a b → Advance seq C (max m b) outs m' →
      Advance seq C m (.missing a b :: outs) m'

variable {seq : ε → Int} {C C' : Int → Int → Int → Prop}
variable {s m m' : Int} {outs outs' : List (Mark ε)}

theorem accept_mark_le (seq : ε → Int) (m : Int) (e : ε) : m ≤ (accept seq m e).2 := by
  unfold accept
  split
  · exact le_rfl
  · next h => exact le_of_lt (Int.not_le.mp h)

theorem accept_fresh {e : ε} (h : m < seq e) : (accept seq m e).2 = seq e := by
  rw [accept, if_neg (by omega)]

theorem items_accept (m : Int) (e : ε) :
    items (accept seq m e).1 = if seq e ≤ m then [] else [e] := by
  unfold accept
  split
  · rfl
  · split <;> rfl

namespace Advance

theorem mark_le (h : Advance seq C m outs m') : m ≤ m' := by
  induction h with
  | done => exact le_rfl
  | accept e _ ih => exact le_trans (accept_mark_le seq _ e) ih
  | concede a b _ _ ih => exact le_trans (le_max_left _ _) ih

theorem append (h : Advance seq C m outs s) (h' : Advance seq C s outs' m') :
    Advance seq C m (outs ++ outs') m' := by
  induction h with
  | done => exact h'
  | accept e _ ih => rw [List.append_assoc]; exact .accept e (ih h')
  | concede a b hC _ ih => exact .concede a b hC (ih h')

/-- What one intake delivers lies above the mark it met, in increasing
order. -/
theorem delivers (h : Advance seq C m outs m') :
    (items outs).Pairwise (fun e e' => seq e < seq e')
      ∧ ∀ e ∈ items outs, m < seq e ∧ seq e ≤ m' := by
  induction h with
  | done => exact ⟨.nil, by simp [items]⟩
  | @accept m m' outs e hrest ih =>
      rw [items_append, items_accept]
      split
      · next hdup =>
          rw [HighWater.accept, if_pos hdup] at ih
          exact ih
      · next hnew =>
          rw [accept_fresh (by omega)] at ih hrest
          refine ⟨List.pairwise_cons.mpr ⟨fun x hx => (ih.2 x hx).1, ih.1⟩, ?_⟩
          intro x hx
          rcases List.mem_cons.mp hx with rfl | hx
          · exact ⟨by omega, hrest.mark_le⟩
          · exact ⟨by have := ih.2 x hx; omega, (ih.2 x hx).2⟩
  | concede a b _ _ ih =>
      exact ⟨ih.1, fun x hx => ⟨lt_of_le_of_lt (le_max_left _ _) (ih.2 x hx).1, (ih.2 x hx).2⟩⟩

/-- What one intake reports missing: either numbers above the mark it
met that it does not deliver, or a concession. -/
theorem reports (h : Advance seq C m outs m') {a b : Int} (hab : Mark.missing a b ∈ outs) :
    b ≤ m' ∧ ((m < a ∧ ∀ e ∈ items outs, ¬ (a ≤ seq e ∧ seq e ≤ b))
      ∨ ∃ m₁, m ≤ m₁ ∧ C m₁ a b ∧ ∀ e ∈ items outs, m₁ < seq e → b < seq e) := by
  induction h with
  | done => cases hab
  | @accept m m' outs e hrest ih =>
      rw [items_append, items_accept]
      have hle := accept_mark_le seq m e
      have hseq : seq e ≤ (HighWater.accept seq m e).2 := by
        by_cases hdup : seq e ≤ m
        · omega
        · rw [accept_fresh (by omega)]
      have hhead : ∀ x ∈ if seq e ≤ m then [] else [e], seq x = seq e := by
        intro x hx
        split at hx
        · cases hx
        · rw [List.mem_singleton.mp hx]
      rcases List.mem_append.mp hab with hab | hab
      · -- the report ahead of the item: it ends right below it
        have hnew : ¬ seq e ≤ m := fun hdup => by simp [HighWater.accept, hdup] at hab
        have hbounds : a = m + 1 ∧ b = seq e - 1 := by
          rw [HighWater.accept, if_neg hnew, List.mem_append] at hab
          rcases hab with hab | hab
          · split at hab
            · simpa using hab
            · cases hab
          · simp at hab
        have hmark := hrest.mark_le
        refine ⟨by omega, .inl ⟨by omega, fun x hx => ?_⟩⟩
        rcases List.mem_append.mp hx with hx | hx
        · have := hhead x hx; omega
        · have := (hrest.delivers.2 x hx).1; omega
      · obtain ⟨hb, ⟨ha, hapart⟩ | ⟨m₁, hm, hC, hapart⟩⟩ := ih hab
        · refine ⟨hb, .inl ⟨by omega, fun x hx => ?_⟩⟩
          rcases List.mem_append.mp hx with hx | hx
          · have := hhead x hx; omega
          · exact hapart x hx
        · refine ⟨hb, .inr ⟨m₁, by omega, hC, fun x hx => ?_⟩⟩
          rcases List.mem_append.mp hx with hx | hx
          · have := hhead x hx; omega
          · exact hapart x hx
  | concede a' b' hC hrest ih =>
      rcases List.mem_cons.mp hab with hab | hab
      · cases hab
        refine ⟨le_trans (le_max_right _ _) hrest.mark_le, .inr ⟨_, le_rfl, hC, ?_⟩⟩
        intro x hx _
        exact lt_of_le_of_lt (le_max_right _ _) (hrest.delivers.2 x hx).1
      · obtain ⟨hb, ⟨ha, hapart⟩ | ⟨m₁, hm, hC, hapart⟩⟩ := ih hab
        · exact ⟨hb, .inl ⟨lt_of_le_of_lt (le_max_left _ _) ha, hapart⟩⟩
        · exact ⟨hb, .inr ⟨m₁, le_trans (le_max_left _ _) hm, hC, hapart⟩⟩

theorem mono (h : Advance seq C m outs m')
    (himp : ∀ m₁ a b, m ≤ m₁ → C m₁ a b → C' m₁ a b) :
    Advance seq C' m outs m' := by
  induction h with
  | done => exact .done _
  | accept e _ ih =>
      exact .accept e (ih fun m₁ a b hm => himp m₁ a b (le_trans (accept_mark_le seq _ e) hm))
  | concede a b hC _ ih =>
      exact .concede a b (himp _ a b le_rfl hC)
        (ih fun m₁ a b hm => himp m₁ a b (le_trans (le_max_left _ _) hm))

end Advance

/-! ## The ledger of outputs -/

/-- Everything between the start `s` and the mark `m` is accounted for
by the outputs, and deliveries are in order. -/
structure Ledger (seq : ε → Int) (s : Int) (outs : List (Mark ε)) (m : Int) :
    Prop where
  ascending : (items outs).Pairwise fun e e' => seq e < seq e'
  le_mark : ∀ e ∈ items outs, seq e ≤ m
  accounted : ∀ n, s < n → n ≤ m →
    (∃ e ∈ items outs, seq e = n)
      ∨ ∃ a b, Mark.missing a b ∈ outs ∧ a ≤ n ∧ n ≤ b

namespace Ledger

theorem start (seq : ε → Int) (s : Int) : Ledger seq s [] s where
  ascending := .nil
  le_mark := by simp [items]
  accounted := fun n h h' => absurd h (by omega)

theorem accept (h : Ledger seq s outs m) (e : ε) :
    Ledger seq s (outs ++ (accept seq m e).1) (accept seq m e).2 := by
  by_cases hdup : seq e ≤ m
  · simpa [HighWater.accept, hdup] using h
  have hitems : items (outs ++ (HighWater.accept seq m e).1) = items outs ++ [e] := by
    rw [items_append, items_accept, if_neg hdup]
  rw [accept_fresh (by omega)]
  refine ⟨?_, ?_, ?_⟩
  · rw [hitems, List.pairwise_append]
    refine ⟨h.ascending, List.pairwise_singleton _ _, fun e₁ h₁ e₂ h₂ => ?_⟩
    rw [List.mem_singleton.mp h₂]
    have := h.le_mark e₁ h₁
    omega
  · intro e₁ h₁
    rw [hitems, List.mem_append, List.mem_singleton] at h₁
    rcases h₁ with h₁ | rfl
    · have := h.le_mark e₁ h₁; omega
    · exact le_rfl
  · intro n hs hn
    rcases Int.lt_or_le m n with hm | hm
    · rcases Int.lt_or_eq_of_le hn with hlt | rfl
      · -- strictly between the old mark and the item: reported missing
        refine .inr ⟨m + 1, seq e - 1, ?_, by omega, by omega⟩
        rw [HighWater.accept, if_neg hdup, if_pos (by omega)]
        simp
      · exact .inl ⟨e, by rw [hitems]; simp, rfl⟩
    · rcases h.accounted n hs hm with ⟨e₁, h₁, rfl⟩ | ⟨a, b, hab, ha, hb⟩
      · exact .inl ⟨e₁, by rw [hitems]; simp [h₁], rfl⟩
      · exact .inr ⟨a, b, List.mem_append_left _ hab, ha, hb⟩

/-- A concession that starts no later than the first open number, or
ends at or below the mark, leaves no hole. -/
theorem concede (h : Ledger seq s outs m) {a b : Int} (hab : a ≤ m + 1 ∨ b ≤ m) :
    Ledger seq s (outs ++ [.missing a b]) (max m b) := by
  have hitems : items (outs ++ [Mark.missing a b]) = items outs := by
    simp [items]
  refine ⟨hitems ▸ h.ascending, fun e he => ?_, fun n hs hn => ?_⟩
  · have := h.le_mark e (hitems ▸ he); omega
  · rcases Int.lt_or_le m n with hm | hm
    · exact .inr ⟨a, b, by simp, by omega, by omega⟩
    · rcases h.accounted n hs hm with ⟨e, he, rfl⟩ | ⟨a', b', hmem, ha, hb⟩
      · exact .inl ⟨e, hitems.symm ▸ he, rfl⟩
      · exact .inr ⟨a', b', List.mem_append_left _ hmem, ha, hb⟩

/-- Raising the mark from outside raises the start with it: what lies
below was somebody else's to account for. -/
theorem seed (h : Ledger seq s outs m) (k : Int) :
    Ledger seq (max s k) outs (max m k) := by
  refine ⟨h.ascending, fun e he => ?_, fun n hs hn => h.accounted n ?_ ?_⟩
  · have := h.le_mark e he; omega
  · omega
  · omega

theorem advance (h : Ledger seq s outs m) (hadv : Advance seq C m outs' m')
    (hC : ∀ m a b, C m a b → a ≤ m + 1 ∨ b ≤ m) :
    Ledger seq s (outs ++ outs') m' := by
  induction hadv generalizing outs with
  | done => rw [List.append_nil]; exact h
  | accept e _ ih => rw [← List.append_assoc]; exact ih (h.accept e)
  | concede a b hab _ ih =>
      rw [List.append_cons]
      exact ih (h.concede (hC _ a b hab))

/-- Deliveries never repeat a number. -/
theorem countP_le_one (h : Ledger seq s outs m) (n : Int) :
    (items outs).countP (fun e => seq e = n) ≤ 1 := by
  have hasc := h.ascending
  generalize items outs = xs at hasc
  induction xs with
  | nil => simp
  | cons x xs ih =>
      obtain ⟨hx, hxs⟩ := List.pairwise_cons.mp hasc
      rw [List.countP_cons]
      by_cases hn : seq x = n
      · have hzero : xs.countP (fun e => seq e = n) = 0 := by
          rw [List.countP_eq_zero]
          intro e he hen
          have := hx e he
          simp only [decide_eq_true_eq] at hen
          omega
        simp [hn, hzero]
      · simpa [hn] using ih hxs

end Ledger

/-! ## Accepting a list -/

/-- Accept items one after the other. -/
def acceptAll (seq : ε → Int) : Int → List ε → List (Mark ε) × Int
  | m, [] => ([], m)
  | m, e :: es =>
      ((HighWater.accept seq m e).1 ++ (acceptAll seq (HighWater.accept seq m e).2 es).1,
        (acceptAll seq (HighWater.accept seq m e).2 es).2)

theorem acceptAll_append (m : Int) (es fs : List ε) :
    acceptAll seq m (es ++ fs)
      = ((acceptAll seq m es).1 ++ (acceptAll seq (acceptAll seq m es).2 fs).1,
          (acceptAll seq (acceptAll seq m es).2 fs).2) := by
  induction es generalizing m with
  | nil => rfl
  | cons e es ih => simp [acceptAll, ih]

theorem le_acceptAll (m : Int) (es : List ε) : m ≤ (acceptAll seq m es).2 := by
  induction es generalizing m with
  | nil => exact le_rfl
  | cons e es ih => exact le_trans (accept_mark_le seq m e) (ih _)

theorem seq_le_accept (m : Int) (e : ε) : seq e ≤ (HighWater.accept seq m e).2 := by
  unfold HighWater.accept
  split
  · assumption
  · exact le_rfl

theorem seq_le_acceptAll (seq : ε → Int) (m : Int) {es : List ε} {e : ε} (he : e ∈ es) :
    seq e ≤ (acceptAll seq m es).2 := by
  induction es generalizing m with
  | nil => cases he
  | cons x es ih =>
      rcases List.mem_cons.mp he with rfl | he
      · exact le_trans (seq_le_accept m e) (le_acceptAll _ es)
      · exact ih _ he

theorem acceptAll_mark_lt {es : List ε} {m n : Int} (hm : m < n)
    (hes : ∀ e ∈ es, seq e < n) : (acceptAll seq m es).2 < n := by
  induction es generalizing m with
  | nil => exact hm
  | cons e es ih =>
      refine ih ?_ fun x hx => hes x (List.mem_cons_of_mem _ hx)
      have := hes e (List.mem_cons_self ..)
      unfold HighWater.accept
      split <;> assumption

theorem acceptAll_ledger (seq : ε → Int) (m : Int) (es : List ε) :
    Ledger seq m (acceptAll seq m es).1 (acceptAll seq m es).2 := by
  have hall : ∀ {outs m'}, Ledger seq m outs m' →
      Ledger seq m (outs ++ (acceptAll seq m' es).1) (acceptAll seq m' es).2 := by
    induction es with
    | nil => intro outs m' h; simpa [acceptAll] using h
    | cons e es ih =>
        intro outs m' h
        rw [acceptAll, ← List.append_assoc]
        exact ih (h.accept e)
  exact hall (Ledger.start seq m)

/-- Only accepted items above the mark are delivered. -/
theorem of_mem_items_acceptAll {es : List ε} {m : Int} {e : ε}
    (he : e ∈ items (acceptAll seq m es).1) : e ∈ es ∧ m < seq e := by
  induction es generalizing m with
  | nil => cases he
  | cons x es ih =>
      rw [acceptAll, items_append, List.mem_append, items_accept] at he
      rcases he with he | he
      · split at he
        · cases he
        · next hx =>
            rw [List.mem_singleton] at he
            subst he
            exact ⟨List.mem_cons_self .., by omega⟩
      · obtain ⟨hmem, hlt⟩ := ih he
        exact ⟨List.mem_cons_of_mem _ hmem, lt_of_le_of_lt (accept_mark_le seq m x) hlt⟩

/-- An item above the mark and above everything accepted before it is
delivered. -/
theorem mem_items_acceptAll {es fs : List ε} {m : Int} {e : ε} (hm : m < seq e)
    (hes : ∀ x ∈ es, seq x < seq e) :
    e ∈ items (acceptAll seq m (es ++ e :: fs)).1 := by
  have hlt := acceptAll_mark_lt hm hes
  rw [acceptAll_append, items_append, acceptAll, items_append, items_accept,
    if_neg (by omega)]
  simp

/-! ## Merging a replay into a live feed -/

/-- `page` replays the numbers from `cursor` up to `h`, between the live
items `before` and `after` it. -/
structure Merge (seq : ε → Int) (cursor h : Int) (before page after : List ε) :
    Prop where
  ascending : (before ++ after).Pairwise fun e e' => seq e < seq e'
  above : ∀ e ∈ before ++ after, cursor < seq e
  page_seqs : page.map seq
    = (List.range (h - cursor).toNat).map fun (k : Nat) => cursor + 1 + (k : Int)

/-- The live items ahead of the page skip nothing that the page will
replay. -/
def Contiguous (seq : ε → Int) (cursor h : Int) (before : List ε) : Prop :=
  ∀ e ∈ before, ∀ n, cursor < n → n < seq e → n ≤ h → ∃ e' ∈ before, seq e' = n

namespace Merge

variable {cursor h : Int} {before page after : List ε}

theorem exists_page_iff (hm : Merge seq cursor h before page after) (n : Int) :
    (∃ e ∈ page, seq e = n) ↔ cursor < n ∧ n ≤ h := by
  rw [← List.mem_map, hm.page_seqs, List.mem_map]
  constructor
  · rintro ⟨k, hk, rfl⟩
    have := List.mem_range.mp hk
    omega
  · rintro ⟨hlo, hhi⟩
    exact ⟨(n - cursor - 1).toNat, List.mem_range.mpr (by omega), by omega⟩

theorem page_ascending (hm : Merge seq cursor h before page after) :
    page.Pairwise fun e e' => seq e < seq e' := by
  have hpair : (page.map seq).Pairwise (· < ·) := by
    rw [hm.page_seqs, List.pairwise_map]
    exact List.pairwise_lt_range.imp fun h => by omega
  exact List.pairwise_map.mp hpair

/-- Everything ahead of the first item with a number is below it, so
acceptance delivers it. -/
theorem delivered (hm : Merge seq cursor h before page after)
    (hcont : Contiguous seq cursor h before) (hmark : m ≤ cursor) {e : ε}
    (he : e ∈ before ++ page ++ after) :
    ∃ e' ∈ items (acceptAll seq m (before ++ page ++ after)).1, seq e' = seq e := by
  obtain ⟨hbefore, hafter, hlt⟩ := List.pairwise_append.mp hm.ascending
  have habove := hm.above
  simp only [List.mem_append] at habove
  by_cases hmem : ∃ x ∈ before, seq x = seq e
  · obtain ⟨x, hx, hseq⟩ := hmem
    obtain ⟨l, r, rfl⟩ := List.append_of_mem hx
    rw [List.append_assoc, List.append_assoc, List.cons_append]
    refine ⟨x, mem_items_acceptAll (lt_of_le_of_lt hmark (habove x (.inl hx))) ?_, hseq⟩
    intro y hy
    exact (List.pairwise_append.mp hbefore).2.2 y hy x (List.mem_cons_self ..)
  by_cases hpage : ∃ x ∈ page, seq x = seq e
  · obtain ⟨x, hx, hseq⟩ := hpage
    obtain ⟨hlo, hhi⟩ := (hm.exists_page_iff (seq x)).mp ⟨x, hx, rfl⟩
    obtain ⟨l, r, rfl⟩ := List.append_of_mem hx
    have hlist : before ++ (l ++ x :: r) ++ after = (before ++ l) ++ x :: (r ++ after) := by
      simp
    rw [hlist]
    refine ⟨x, mem_items_acceptAll (by omega) ?_, hseq⟩
    intro y hy
    rcases List.mem_append.mp hy with hy | hy
    · -- a live item above a replayed one would have had it ahead of itself
      by_contra hnot
      rcases Int.lt_or_eq_of_le (Int.not_lt.mp hnot) with hxy | hxy
      · obtain ⟨z, hz, hzx⟩ := hcont y hy _ hlo hxy hhi
        exact hmem ⟨z, hz, hzx.trans hseq⟩
      · exact hmem ⟨y, hy, hxy.symm.trans hseq⟩
    · exact (List.pairwise_append.mp hm.page_ascending).2.2 y hy x
        (List.mem_cons_self ..)
  · have heafter : e ∈ after := by
      rcases List.mem_append.mp he with he | he
      · rcases List.mem_append.mp he with he | he
        · exact absurd ⟨e, he, rfl⟩ hmem
        · exact absurd ⟨e, he, rfl⟩ hpage
      · exact he
    have hhigh : h < seq e := by
      by_contra hle
      exact hpage ((hm.exists_page_iff (seq e)).mpr
        ⟨habove e (.inr heafter), Int.not_lt.mp hle⟩)
    obtain ⟨l, r, rfl⟩ := List.append_of_mem heafter
    rw [← List.append_assoc]
    refine ⟨e, mem_items_acceptAll
      (lt_of_le_of_lt hmark (habove e (.inr heafter))) ?_, rfl⟩
    intro y hy
    rcases List.mem_append.mp hy with hy | hy
    · rcases List.mem_append.mp hy with hy | hy
      · exact hlt y hy e heafter
      · have := (hm.exists_page_iff (seq y)).mp ⟨y, hy, rfl⟩
        omega
    · exact (List.pairwise_append.mp hafter).2.2 y hy e (List.mem_cons_self ..)

/-- A number the live feed has passed is not delivered any more. -/
theorem contiguous_of_delivered (hm : Merge seq cursor h before page after)
    (hdel : ∀ e ∈ page, ∃ e' ∈ items (acceptAll seq m (before ++ page ++ after)).1,
      seq e' = seq e) : Contiguous seq cursor h before := by
  intro e he n hlo hlt hhi
  obtain ⟨x, hx, rfl⟩ := (hm.exists_page_iff n).mpr ⟨hlo, hhi⟩
  obtain ⟨y, hy, hseq⟩ := hdel x hx
  rw [List.append_assoc, acceptAll_append, items_append, List.mem_append] at hy
  rcases hy with hy | hy
  · exact ⟨y, (of_mem_items_acceptAll hy).1, hseq⟩
  · have := (of_mem_items_acceptAll hy).2
    have := seq_le_acceptAll seq m he
    omega

end Merge

/-! ## Reports and deliveries are disjoint -/

/-- No number was both reported missing and delivered, and nothing put
out lies above the mark. -/
structure Disjoint (seq : ε → Int) (outs : List (Mark ε)) (m : Int) : Prop where
  delivered_le : ∀ e ∈ items outs, seq e ≤ m
  missing_le : ∀ a b, Mark.missing a b ∈ outs → b ≤ m
  apart : ∀ a b, Mark.missing a b ∈ outs → ∀ e ∈ items outs,
    ¬ (a ≤ seq e ∧ seq e ≤ b)

namespace Disjoint

theorem start (seq : ε → Int) (m : Int) : Disjoint seq [] m :=
  ⟨by simp [items], by simp, by simp⟩

theorem raise (h : Disjoint seq outs m) (hm : m ≤ m') : Disjoint seq outs m' :=
  ⟨fun e he => le_trans (h.delivered_le e he) hm,
    fun a b hab => le_trans (h.missing_le a b hab) hm, h.apart⟩

/-- What lies above the mark can be reported or delivered without
touching what is below. -/
theorem append (h : Disjoint seq outs m) (h' : Disjoint seq outs' m') (hm : m ≤ m')
    (hitems : ∀ e ∈ items outs', m < seq e)
    (hmissing : ∀ a b, Mark.missing a b ∈ outs' → ∀ e ∈ items outs,
      ¬ (a ≤ seq e ∧ seq e ≤ b)) : Disjoint seq (outs ++ outs') m' := by
  refine ⟨fun e he => ?_, fun a b hab => ?_, fun a b hab e he => ?_⟩
  · rw [items_append, List.mem_append] at he
    exact he.elim (fun he => le_trans (h.delivered_le e he) hm) (h'.delivered_le e)
  · exact (List.mem_append.mp hab).elim
      (fun hab => le_trans (h.missing_le a b hab) hm) (h'.missing_le a b)
  · rw [items_append, List.mem_append] at he
    rcases List.mem_append.mp hab with hab | hab <;> rcases he with he | he
    · exact h.apart a b hab e he
    · have := h.missing_le a b hab
      have := hitems e he
      omega
    · exact hmissing a b hab e he
    · exact h'.apart a b hab e he

theorem accept (h : Disjoint seq outs m) (e : ε) :
    Disjoint seq (outs ++ (HighWater.accept seq m e).1) (HighWater.accept seq m e).2 := by
  by_cases hdup : seq e ≤ m
  · simpa [HighWater.accept, hdup] using h
  have hmiss : ∀ a b, Mark.missing a b ∈ (HighWater.accept seq m e).1 →
      a = m + 1 ∧ b = seq e - 1 := by
    intro a b hab
    rw [HighWater.accept, if_neg hdup, List.mem_append] at hab
    rcases hab with hab | hab
    · split at hab
      · simpa using hab
      · cases hab
    · simp at hab
  have hitems : ∀ x ∈ items (HighWater.accept seq m e).1, x = e := by
    rw [items_accept, if_neg hdup]; simp
  rw [accept_fresh (by omega)]
  refine h.append ⟨?_, ?_, ?_⟩ (by omega) ?_ ?_
  · intro x hx; rw [hitems x hx]
  · intro a b hab; have := hmiss a b hab; omega
  · intro a b hab x hx; have := hmiss a b hab; rw [hitems x hx]; omega
  · intro x hx; rw [hitems x hx]; omega
  · intro a b hab x hx; have := hmiss a b hab; have := h.delivered_le x hx; omega

theorem acceptAll (h : Disjoint seq outs m) (es : List ε) :
    Disjoint seq (outs ++ (HighWater.acceptAll seq m es).1)
      (HighWater.acceptAll seq m es).2 := by
  induction es generalizing outs m with
  | nil => simpa [HighWater.acceptAll] using h
  | cons e es ih =>
      rw [HighWater.acceptAll, ← List.append_assoc]
      exact ih (h.accept e)

/-- A concession may cover nothing delivered. -/
theorem concede (h : Disjoint seq outs m) {a b : Int}
    (hab : ∀ e ∈ items outs, ¬ (a ≤ seq e ∧ seq e ≤ b)) :
    Disjoint seq (outs ++ [.missing a b]) (max m b) := by
  refine h.append ⟨by simp [items], ?_, by simp [items]⟩ (le_max_left _ _)
    (by simp [items]) ?_
  · intro a' b' h'
    rw [List.mem_singleton] at h'
    cases h'
    exact le_max_right _ _
  · intro a' b' h' e he
    rw [List.mem_singleton] at h'
    cases h'
    exact hab e he

end Disjoint

end HighWater

end MineBot
