import Mathlib

/-!
# Traces of calls

A state that carries a trace, the list of the calls made so far. `Emits x P`:
run from anywhere, the computation `x` only appends to the trace, and `P` holds
of its answer and of what it appended. The rules go along the computation, with
the rest of it as the postcondition of its first part; `Emits.run_bind` is the
one for a computation that may throw.
-/

namespace MineBot

variable {σ ε exc α β : Type}

def Emits (x : StateM (σ × List ε) α) (P : α → List ε → Prop) : Prop :=
  ∀ w before, ∃ a w' made, x.run (w, before) = (a, (w', before ++ made)) ∧ P a made

/-- The computation, without an entry in the trace. -/
def untraced (x : ExceptT exc (StateM σ) α) : ExceptT exc (StateM (σ × List ε)) α :=
  ExceptT.mk fun s =>
    let (r, w) := x.run.run s.1
    (r, (w, s.2))

/-- The computation, with an entry that says whether it answered. -/
def traced (entry : Bool → ε) (x : ExceptT exc (StateM σ) α) :
    ExceptT exc (StateM (σ × List ε)) α :=
  ExceptT.mk fun s =>
    let (r, w) := x.run.run s.1
    (r, (w, s.2 ++ [entry r.toBool]))

/-- A question to the world, with an entry that says what came back. -/
def asked (entry : α → ε) (question : σ → α × σ) : StateM (σ × List ε) α :=
  fun s =>
    let (a, w) := question s.1
    (a, (w, s.2 ++ [entry a]))

/-- A question to the world, without an entry in the trace. -/
def heard (question : σ → α × σ) : StateM (σ × List ε) α :=
  fun s =>
    let (a, w) := question s.1
    (a, (w, s.2))

/-- `except`, for the errors that it catches. -/
def attempted (catches : exc → Bool) (x : ExceptT exc (StateM (σ × List ε)) α) :
    ExceptT exc (StateM (σ × List ε)) (Except exc α) :=
  ExceptT.mk do
    match ← x.run with
    | .ok a => Pure.pure (.ok (.ok a))
    | .error e => Pure.pure (if catches e then .ok (.error e) else .error e)

namespace Emits

theorem pure {P : α → List ε → Prop} {a : α} (h : P a []) :
    Emits (Pure.pure a : StateM (σ × List ε) α) P :=
  fun w before => ⟨a, w, [], by rw [List.append_nil]; rfl, h⟩

theorem imp {x : StateM (σ × List ε) α} {P Q : α → List ε → Prop} (h : Emits x P)
    (himp : ∀ a made, P a made → Q a made) : Emits x Q := by
  intro w before
  obtain ⟨a, w', made, hrun, hP⟩ := h w before
  exact ⟨a, w', made, hrun, himp a made hP⟩

theorem bind {x : StateM (σ × List ε) α} {f : α → StateM (σ × List ε) β}
    {P : β → List ε → Prop}
    (h : Emits x fun a made => Emits (f a) fun b rest => P b (made ++ rest)) :
    Emits (x >>= f) P := by
  intro w before
  obtain ⟨a, w₁, made, hx, hf⟩ := h w before
  obtain ⟨b, w₂, rest, hf, hP⟩ := hf w₁ (before ++ made)
  refine ⟨b, w₂, made ++ rest, ?_, hP⟩
  show (f (x.run (w, before)).1).run (x.run (w, before)).2 = _
  rw [hx, hf, List.append_assoc]

variable {P : Except exc α → List ε → Prop}

theorem run_pure {a : α} (h : P (.ok a) []) :
    Emits (Pure.pure a : ExceptT exc (StateM (σ × List ε)) α).run P := pure h

theorem run_throw {e : exc} (h : P (.error e) []) :
    Emits (throw e : ExceptT exc (StateM (σ × List ε)) α).run P := pure h

theorem run_lift {r : Except exc α} (h : P r []) :
    Emits (liftM r : ExceptT exc (StateM (σ × List ε)) α).run P := by
  cases r with
  | ok a => exact pure h
  | error e => exact pure h

theorem run_lift_state {x : StateM (σ × List ε) α} (h : Emits x fun a made => P (.ok a) made) :
    Emits (liftM x : ExceptT exc (StateM (σ × List ε)) α).run P := by
  intro w before
  obtain ⟨a, w', made, hrun, hP⟩ := h w before
  refine ⟨.ok a, w', made, ?_, hP⟩
  show ((x.run (w, before)).map Except.ok id : Except exc α × (σ × List ε)) = _
  rw [hrun]
  rfl

theorem run_bind {x : ExceptT exc (StateM (σ × List ε)) α}
    {f : α → ExceptT exc (StateM (σ × List ε)) β} {Q : Except exc β → List ε → Prop}
    (h : Emits x.run fun r made =>
      (∀ a, r = .ok a → Emits (f a).run fun b rest => Q b (made ++ rest)) ∧
        ∀ e, r = .error e → Q (.error e) made) : Emits (x >>= f).run Q := by
  rw [ExceptT.run_bind]
  refine bind (h.imp fun r made hr => ?_)
  cases r with
  | ok a => exact hr.1 a rfl
  | error e => exact pure (by rw [List.append_nil]; exact hr.2 e rfl)

theorem run_throw_bind {e : exc} {f : α → ExceptT exc (StateM (σ × List ε)) β}
    {Q : Except exc β → List ε → Prop} (h : Q (.error e) []) :
    Emits ((throw e : ExceptT exc (StateM (σ × List ε)) α) >>= f).run Q := pure h

theorem run_untraced {x : ExceptT exc (StateM σ) α} (h : ∀ r, P r []) :
    Emits (untraced x).run P :=
  fun w before => ⟨(x.run.run w).1, (x.run.run w).2, [], by rw [List.append_nil]; rfl, h _⟩

theorem run_traced {entry : Bool → ε} {x : ExceptT exc (StateM σ) α}
    (h : ∀ r, P r [entry r.toBool]) : Emits (traced entry x).run P :=
  fun w _ => ⟨(x.run.run w).1, (x.run.run w).2, [entry (x.run.run w).1.toBool], rfl, h _⟩

theorem asked {entry : α → ε} {question : σ → α × σ} {P : α → List ε → Prop}
    (h : ∀ a, P a [entry a]) : Emits (asked entry question) P :=
  fun w _ => ⟨(question w).1, (question w).2, [entry (question w).1], rfl, h _⟩

theorem heard {question : σ → α × σ} {P : α → List ε → Prop} (h : ∀ a, P a []) :
    Emits (heard question) P :=
  fun w before => ⟨(question w).1, (question w).2, [], by rw [List.append_nil]; rfl, h _⟩

/-- An answer that is itself a result, raised where it is an error. -/
theorem run_mk {x : StateM (σ × List ε) (Except exc α)} (h : Emits x P) :
    Emits (ExceptT.mk x).run P := h

theorem run_attempted {catches : exc → Bool} {x : ExceptT exc (StateM (σ × List ε)) α}
    {Q : Except exc (Except exc α) → List ε → Prop}
    (h : Emits x.run fun r made => match r with
      | .ok a => Q (.ok (.ok a)) made
      | .error e => if catches e then Q (.ok (.error e)) made else Q (.error e) made) :
    Emits (attempted catches x).run Q := by
  refine bind (h.imp fun r made hr => ?_)
  cases r with
  | ok a => exact pure (by rw [List.append_nil]; exact hr)
  | error e =>
      refine pure ?_
      rw [List.append_nil]
      cases hcatch : catches e with
      | true => simpa [hcatch] using hr
      | false => simpa [hcatch] using hr

end Emits

end MineBot
