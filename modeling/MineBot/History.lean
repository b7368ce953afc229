import Mathlib

/-!
# Histories of a step function

A system that is driven from outside - by frames, by calls, by a clock -
is a total step function: an input and a state give an output and the
next state, and everything the environment chooses is part of the
input. A *run* of it is the log of its inputs and outputs, in order.
Claims about a run are claims about that log and the state it ends in,
so the machine itself needs no ghost fields: what was emitted, granted
or returned so far is read off the log.

`ok` says which inputs the environment may offer where, and may look at
the whole log. It carries the standing assumptions (a clock that never
goes back) and, for a result that needs one, the condition each step of
the run has to meet; `Run.weaken` moves between the two.
-/

namespace MineBot

variable {σ ι ω : Type*}

/-- The log and the last state of feeding `inputs` to `step` from `s`. -/
def exec (step : σ → ι → ω × σ) (s : σ) : List ι → List (ι × ω) × σ
  | [] => ([], s)
  | i :: is =>
      ((i, (step s i).1) :: (exec step (step s i).2 is).1, (exec step (step s i).2 is).2)

theorem exec_append (step : σ → ι → ω × σ) (is js : List ι) (s : σ) :
    exec step s (is ++ js) = ((exec step s is).1 ++ (exec step (exec step s is).2 js).1,
      (exec step (exec step s is).2 js).2) := by
  induction is generalizing s with
  | nil => rfl
  | cons i is ih => simp only [List.cons_append, exec, ih]

/-- `Run step ok s₀ log s`: started in `s₀` and fed inputs that `ok`
allows, `step` has produced `log` and stands in `s`. -/
inductive Run (step : σ → ι → ω × σ) (ok : List (ι × ω) → σ → ι → Prop)
    (s₀ : σ) : List (ι × ω) → σ → Prop where
  | start : Run step ok s₀ [] s₀
  | next {log : List (ι × ω)} {s : σ} (i : ι) :
      Run step ok s₀ log s → ok log s i →
      Run step ok s₀ (log ++ [(i, (step s i).1)]) (step s i).2

namespace Run

variable {step : σ → ι → ω × σ} {ok ok' : List (ι × ω) → σ → ι → Prop}
variable {s₀ s s' : σ} {log : List (ι × ω)}

theorem weaken (h : Run step ok s₀ log s)
    (himp : ∀ log s i, ok log s i → ok' log s i) : Run step ok' s₀ log s := by
  induction h with
  | start => exact .start
  | next i _ hok ih => exact ih.next i (himp _ _ _ hok)

/-- What holds at the start and survives every allowed step holds
wherever a run stands. -/
theorem invariant {P : List (ι × ω) → σ → Prop} (h : Run step ok s₀ log s)
    (hstart : P [] s₀)
    (hnext : ∀ log s i, Run step ok s₀ log s → ok log s i → P log s →
      P (log ++ [(i, (step s i).1)]) (step s i).2) : P log s := by
  induction h with
  | start => exact hstart
  | next i hrun hok ih => exact hnext _ _ i hrun hok ih

/-- A run is the execution of its inputs. -/
theorem eq_exec (h : Run step ok s₀ log s) :
    exec step s₀ (log.map Prod.fst) = (log, s) := by
  induction h with
  | start => rfl
  | next i _ _ ih => simp [exec_append, ih, exec]

/-- The log decides the state: the step function is deterministic. -/
theorem state_unique (h : Run step ok s₀ log s) (h' : Run step ok' s₀ log s') :
    s = s' :=
  (Prod.mk.inj (h.eq_exec.symm.trans h'.eq_exec)).2

/-- Inputs that are allowed everywhere prolong a run. -/
theorem exec_inputs (h : Run step ok s₀ log s) (inputs : List ι)
    (hok : ∀ log s, ∀ i ∈ inputs, ok log s i) :
    Run step ok s₀ (log ++ (exec step s inputs).1) (exec step s inputs).2 := by
  induction inputs generalizing log s with
  | nil => simpa [exec] using h
  | cons i is ih =>
      simpa [exec] using ih (h.next i (hok _ _ i List.mem_cons_self))
        fun log s j hj => hok log s j (List.mem_cons_of_mem _ hj)

theorem of_inputs (inputs : List ι) (hok : ∀ log s, ∀ i ∈ inputs, ok log s i) :
    Run step ok s₀ (exec step s₀ inputs).1 (exec step s₀ inputs).2 :=
  exec_inputs .start inputs hok

end Run

/-! ## Checked runs -/

/-- The inputs go through, each where the check passes. -/
def passes (step : σ → ι → ω × σ) (check : List (ι × ω) → σ → ι → Bool) :
    List (ι × ω) → σ → List ι → Bool
  | _, _, [] => true
  | log, s, i :: is =>
      check log s i && passes step check (log ++ [(i, (step s i).1)]) (step s i).2 is

theorem Run.of_passes {step : σ → ι → ω × σ} {ok : List (ι × ω) → σ → ι → Prop} {s₀ s : σ}
    {log : List (ι × ω)} {check : List (ι × ω) → σ → ι → Bool} (h : Run step ok s₀ log s)
    (hcheck : ∀ log s i, check log s i = true → ok log s i) {inputs : List ι}
    (hpass : passes step check log s inputs = true) :
    Run step ok s₀ (log ++ (exec step s inputs).1) (exec step s inputs).2 := by
  induction inputs generalizing log s with
  | nil => simpa [exec] using h
  | cons i is ih =>
      obtain ⟨hhead, htail⟩ := (Bool.and_eq_true _ _).mp hpass
      simpa [exec] using ih (h.next i (hcheck _ _ _ hhead)) htail

/-! ## Continuations -/

/-- `Leads step ok pre s post s'`: standing in `s` after the log `pre`,
the system goes on to produce `post` and then stands in `s'`. -/
inductive Leads (step : σ → ι → ω × σ) (ok : List (ι × ω) → σ → ι → Prop) :
    List (ι × ω) → σ → List (ι × ω) → σ → Prop where
  | done (pre : List (ι × ω)) (s : σ) : Leads step ok pre s [] s
  | next {pre post : List (ι × ω)} {s s' : σ} (i : ι) : ok pre s i →
      Leads step ok (pre ++ [(i, (step s i).1)]) (step s i).2 post s' →
      Leads step ok pre s ((i, (step s i).1) :: post) s'

section

variable {step : σ → ι → ω × σ} {ok : List (ι × ω) → σ → ι → Prop}
variable {s₀ s s' : σ} {pre post post' : List (ι × ω)}

/-- The first entry of a continuation, as the step that made it. -/
theorem Leads.head {i : ι} {o : ω} (h : Leads step ok pre s ((i, o) :: post) s') :
    o = (step s i).1 ∧ ok pre s i ∧ Leads step ok (pre ++ [(i, o)]) (step s i).2 post s' := by
  cases h with
  | next _ hok h => exact ⟨rfl, hok, h⟩

theorem Leads.snoc (h : Leads step ok pre s post s') {i : ι} (hok : ok (pre ++ post) s' i) :
    Leads step ok pre s (post ++ [(i, (step s' i).1)]) (step s' i).2 := by
  induction h with
  | done pre s => exact .next i (by simpa using hok) (.done _ _)
  | next j hj _ ih => exact .next j hj (ih (by simpa using hok))

theorem Leads.split (h : Leads step ok pre s (post ++ post') s') :
    ∃ s₁, Leads step ok pre s post s₁ ∧ Leads step ok (pre ++ post) s₁ post' s' := by
  induction post generalizing pre s with
  | nil => exact ⟨s, .done _ _, by simpa using h⟩
  | cons e post ih =>
      cases h with
      | next i hok h =>
          obtain ⟨s₁, h₁, h₂⟩ := ih h
          exact ⟨s₁, .next i hok h₁, by simpa using h₂⟩

/-- A run is a continuation of the empty log. -/
theorem Run.leads (h : Run step ok s₀ post s) : Leads step ok [] s₀ post s := by
  induction h with
  | start => exact .done _ _
  | next i _ hok ih => exact ih.snoc hok

/-- A run passes through every prefix of its log. -/
theorem Run.split (h : Run step ok s₀ (pre ++ post) s) :
    ∃ s₁, Run step ok s₀ pre s₁ ∧ Leads step ok pre s₁ post s := by
  generalize hlog : pre ++ post = log at h
  induction h generalizing post with
  | start =>
      obtain ⟨rfl, rfl⟩ := List.append_eq_nil_iff.mp hlog
      exact ⟨s₀, .start, .done _ _⟩
  | @next log₁ s₁ i hrun hok ih =>
      rcases List.eq_nil_or_concat post with rfl | ⟨post', e, rfl⟩
      · rw [List.append_nil] at hlog
        exact ⟨_, hlog ▸ hrun.next i hok, .done _ _⟩
      · rw [List.concat_eq_append, ← List.append_assoc] at hlog
        obtain ⟨rfl, he⟩ := List.append_inj' hlog rfl
        obtain rfl := (List.cons.inj he).1
        obtain ⟨s₂, hpre, hpost⟩ := ih rfl
        exact ⟨s₂, hpre, by rw [List.concat_eq_append]; exact hpost.snoc hok⟩

theorem Run.append (h : Run step ok s₀ pre s) (h' : Leads step ok pre s post s') :
    Run step ok s₀ (pre ++ post) s' := by
  induction h' with
  | done => simpa using h
  | next i hok _ ih => simpa using ih (h.next i hok)

/-- What holds where a continuation starts and survives every allowed
step holds where it ends. -/
theorem Leads.invariant {P : List (ι × ω) → σ → Prop}
    (h : Leads step ok pre s post s') (hpre : Run step ok s₀ pre s) (hP : P pre s)
    (hnext : ∀ log s i, Run step ok s₀ log s → ok log s i → P log s →
      P (log ++ [(i, (step s i).1)]) (step s i).2) : P (pre ++ post) s' := by
  induction h with
  | done => simpa using hP
  | next i hok _ ih => simpa using ih (hpre.next i hok) (hnext _ _ i hpre hok hP)

end

end MineBot
