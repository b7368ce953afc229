import Mathlib

/-!
# Observers and repeated samples

An observer takes in samples, and calls of other kinds come between them. What
it makes of a sample depends on a part of its state, the view, and the view
follows a machine of its own that only samples move. Where a sample that has
just been taken in moves it no more, repeats of it and other calls can be
inserted anywhere: what each sample comes to stays as it was
(`Settles.insertions`).
-/

namespace MineBot

variable {σ ε π κ τ ω : Type*}

/-- `τ` is what the clocks show at a call. -/
structure Observer (σ π κ τ ω : Type*) where
  sample : σ → π → τ → ω × σ
  other : σ → κ → τ → ω × σ

/-- A call, and whether it was inserted. -/
inductive SampleEvent (π κ τ : Type*) where
  | sample (p : π) (t : τ)
  | again (p : π) (t : τ)
  | other (c : κ) (t : τ)

namespace SampleEvent

/-- The call was there before anything was inserted. -/
def original : SampleEvent π κ τ → Bool
  | sample _ _ => true
  | again _ _ => false
  | other _ _ => false

/-- What comes again is the last sample. -/
def RepeatsLast : Option π → List (SampleEvent π κ τ) → Prop
  | _, [] => True
  | _, sample p _ :: events => RepeatsLast (some p) events
  | last, again p _ :: events => last = some p ∧ RepeatsLast last events
  | last, other _ _ :: events => RepeatsLast last events

end SampleEvent

/-- A call with the states around it. -/
structure Turn (σ π κ τ ω : Type*) where
  event : SampleEvent π κ τ
  before : σ
  output : ω
  after : σ

namespace Observer

variable (o : Observer σ π κ τ ω)

def step (s : σ) : SampleEvent π κ τ → ω × σ
  | .sample p t => o.sample s p t
  | .again p t => o.sample s p t
  | .other c t => o.other s c t

def turns (s : σ) : List (SampleEvent π κ τ) → List (Turn σ π κ τ ω)
  | [] => []
  | event :: events =>
      ⟨event, s, (o.step s event).1, (o.step s event).2⟩ :: turns (o.step s event).2 events

/-- Each turn is a step. -/
theorem mem_turns {s : σ} {events : List (SampleEvent π κ τ)} :
    ∀ turn ∈ o.turns s events,
      turn.output = (o.step turn.before turn.event).1 ∧
      turn.after = (o.step turn.before turn.event).2 := by
  induction events generalizing s with
  | nil => exact fun turn hturn => absurd hturn List.not_mem_nil
  | cons event events ih =>
      intro turn hturn
      rcases List.mem_cons.mp hturn with rfl | hturn
      · exact ⟨rfl, rfl⟩
      · exact ih turn hturn

/-- Samples move the view as `see` does, one that comes again moves it no more,
and other calls never do. -/
structure Settles (view : σ → ε) (see : ε → π → ω × ε) (quiet : ω → Prop) : Prop where
  sample_output : ∀ s p t, (o.sample s p t).1 = (see (view s) p).1
  sample_view : ∀ s p t, view (o.sample s p t).2 = (see (view s) p).2
  again_quiet : ∀ e p, quiet (see (see e p).2 p).1
  again_view : ∀ e p, (see (see e p).2 p).2 = (see e p).2
  other_quiet : ∀ s c t, quiet (o.other s c t).1
  other_view : ∀ s c t, view (o.other s c t).2 = view s

variable {o} {view : σ → ε} {see : ε → π → ω × ε} {quiet : ω → Prop}

/-- The sample has been taken in. -/
def Seen (see : ε → π → ω × ε) (last : Option π) (e : ε) : Prop :=
  ∀ p ∈ last, ∃ e₀, e = (see e₀ p).2

theorem Settles.again (h : o.Settles view see quiet) {s : σ} {p : π}
    (hseen : Seen see (some p) (view s)) (t : τ) :
    quiet (o.sample s p t).1 ∧ view (o.sample s p t).2 = view s := by
  obtain ⟨e₀, he⟩ := hseen p rfl
  rw [h.sample_output, h.sample_view, he]
  exact ⟨h.again_quiet e₀ p, h.again_view e₀ p⟩

/-- An inserted call is quiet and leaves the view as it is. -/
theorem Settles.inserted (h : o.Settles view see quiet) {events : List (SampleEvent π κ τ)}
    {last : Option π} (hrepeats : SampleEvent.RepeatsLast last events) {s : σ}
    (hseen : Seen see last (view s)) :
    ∀ turn ∈ o.turns s events, turn.event.original = false →
      quiet turn.output ∧ view turn.after = view turn.before := by
  induction events generalizing last s with
  | nil => exact fun turn hturn => absurd hturn List.not_mem_nil
  | cons event events ih =>
      intro turn hturn horiginal
      cases event with
      | sample p t =>
          have hnext : Seen see (some p) (view (o.sample s p t).2) := by
            rintro _ ⟨⟩
            exact ⟨view s, h.sample_view s p t⟩
          rcases List.mem_cons.mp hturn with rfl | hturn
          · cases horiginal
          · exact ih hrepeats hnext turn hturn horiginal
      | again p t =>
          obtain ⟨rfl, hrest⟩ := hrepeats
          obtain ⟨hquiet, hview⟩ := h.again hseen t
          rcases List.mem_cons.mp hturn with rfl | hturn
          · exact ⟨hquiet, hview⟩
          · exact ih hrest (hview.symm ▸ hseen) turn hturn horiginal
      | other c t =>
          have hview := h.other_view s c t
          rcases List.mem_cons.mp hturn with rfl | hturn
          · exact ⟨h.other_quiet s c t, hview⟩
          · exact ih hrepeats (hview.symm ▸ hseen) turn hturn horiginal

/-- **Insertions make no difference** to what the samples come to. -/
theorem Settles.insertions (h : o.Settles view see quiet) {events : List (SampleEvent π κ τ)}
    {last : Option π} (hrepeats : SampleEvent.RepeatsLast last events) {s s' : σ}
    (hseen : Seen see last (view s)) (hview : view s = view s') :
    ((o.turns s events).filter (·.event.original)).map (fun turn => (turn.output, view turn.after)) =
      (o.turns s' (events.filter SampleEvent.original)).map
        fun turn => (turn.output, view turn.after) := by
  induction events generalizing last s s' with
  | nil => rfl
  | cons event events ih =>
      cases event with
      | sample p t =>
          have hnext : Seen see (some p) (view (o.sample s p t).2) := by
            rintro _ ⟨⟩
            exact ⟨view s, h.sample_view s p t⟩
          have houtput : (o.sample s p t).1 = (o.sample s' p t).1 := by
            rw [h.sample_output, h.sample_output, hview]
          have hafter : view (o.sample s p t).2 = view (o.sample s' p t).2 := by
            rw [h.sample_view, h.sample_view, hview]
          exact congrArg₂ List.cons (Prod.ext houtput hafter) (ih hrepeats hnext hafter)
      | again p t =>
          obtain ⟨rfl, hrest⟩ := hrepeats
          have hstill := (h.again hseen t).2
          exact ih hrest (hstill.symm ▸ hseen) (hstill.trans hview)
      | other c t =>
          have hstill := h.other_view s c t
          exact ih hrepeats (hstill.symm ▸ hseen) (hstill.trans hview)

end Observer

end MineBot
