import MineBot.RealClientBody

/-!
# One native process at a time

Runs of the body, with any number of workers and probes. A worker that gives
up leaves its action the active one and control unknown, since the native
client may still be at work; `confirm_control_idle` releases both when the
native state says that nothing is going on. The state is read first and acted
on in a later section, so a probe can release an action that was begun, and
given up, after it read (`StaleRelease`).
-/

namespace MineBot

namespace RealClient

open Objective (Python)

/-! ## Evidence -/

/-- The probe `c` read the native state after the exchange of the worker `w`
was over. -/
def Fresh (log : Log) (c w : Nat) : Prop :=
  ∃ pre exchange mid state post,
    log = pre ++ (.answer w exchange, .answered) :: mid ++ (.sample state, .sampled c) :: post

/-- The action of the worker `w` has ended: by a native terminal, by a native
rejection, or a state read after the worker gave up shows nothing active. -/
def Resolved (log : Log) (w : Nat) : Prop :=
  (∃ terminal, (.answer w (.terminal terminal), .answered) ∈ log) ∨
  (∃ reason, (.answer w (.rejected reason), .answered) ∈ log) ∨
  ∃ pre kind message mid state c post,
    log = pre ++ (.answer w (.transport kind message), .answered) :: mid
      ++ (.sample state, .sampled c) :: post ∧ Body.stopped state = true

/-- Where an action that is no control is accepted, every earlier one has
ended. -/
def OneAtATime (log : Log) : Prop :=
  ∀ pre action w route data post, log = pre ++ (.execute action, .accepted w route data) :: post →
    route.control = none → ∀ action' w' route' data',
      (.execute action', .accepted w' route' data') ∈ pre → route'.control = none →
        Resolved pre w'

/-- The probe ends with a state that shows nothing active, and finds that the
active action is done, but has read the state before the worker of the action
gave up. -/
def StaleRelease (log : Log) (b : Body) : Input → Prop
  | .conclude c => ∃ confirm w, b.confirms[c]? = some confirm ∧ confirm.probe = .archiving [] ∧
      Body.stopped confirm.state = true ∧ b.active = some w ∧ b.activeDone = true ∧ ¬ Fresh log c w
  | _ => False

section Evidence

variable {log : Log} {entry : Input × Output} {c w : Nat}

theorem Resolved.mono (h : Resolved log w) : Resolved (log ++ [entry]) w := by
  rcases h with ⟨terminal, hmem⟩ | ⟨reason, hmem⟩ | ⟨pre, kind, message, mid, state, c, post, rfl, h⟩
  · exact .inl ⟨terminal, List.mem_append_left _ hmem⟩
  · exact .inr (.inl ⟨reason, List.mem_append_left _ hmem⟩)
  · exact .inr (.inr ⟨pre, kind, message, mid, state, c, post ++ [entry], by simp, h⟩)

/-- A fresh state that shows nothing active resolves an action, unless what
came back is the response to a control. -/
theorem Fresh.resolved (h : Fresh log c w)
    (hresponse : ∀ response, (.answer w (.response response), .answered) ∉ log)
    (hstate : ∀ state, (.sample state, .sampled c) ∈ log → Body.stopped state = true) :
    Resolved log w := by
  obtain ⟨pre, exchange, mid, state, post, hlog⟩ := h
  have hanswer : (.answer w exchange, .answered) ∈ log := by
    rw [hlog]
    simp
  have hstopped : Body.stopped state = true := by
    refine hstate state ?_
    rw [hlog]
    simp
  cases exchange with
  | response response => exact absurd hanswer (hresponse response)
  | terminal terminal => exact .inl ⟨terminal, hanswer⟩
  | rejected reason => exact .inr (.inl ⟨reason, hanswer⟩)
  | transport kind message =>
      exact .inr (.inr ⟨pre, kind, message, mid, state, c, post, hlog, hstopped⟩)

end Evidence

/-! ## Workers -/

theorem leavesControlUnknown_withObserverErrors (event : Event) (errors : Nat) :
    leavesControlUnknown (Body.withObserverErrors event errors) = leavesControlUnknown event := by
  unfold Body.withObserverErrors
  split
  · rfl
  · simp only [leavesControlUnknown]
    rw [Dict.get?_set_of_ne _ (by decide)]

/-- Only a native terminal releases an action that is no control. -/
theorem terminal_of_released {botName : String} {action : Action} {exchange : Exchange}
    {event : Event} (h : Body.eventOf botName action none exchange = some event)
    (hreleased : leavesControlUnknown event = false) : ∃ terminal, exchange = .terminal terminal := by
  cases exchange with
  | response response => cases h
  | terminal terminal => exact ⟨terminal, rfl⟩
  | rejected reason =>
      obtain rfl := Option.some.inj h
      cases hreleased
  | transport kind message =>
      obtain rfl := Option.some.inj h
      cases hreleased

/-- What the log has on a worker, by where it stands. -/
structure Recorded (log : Log) (w : Nat) (x : Worker) : Prop where
  responses : ∀ response, (.answer w (.response response), .answered) ∈ log →
    x.route.control.isSome = true
  released : ∀ event, x.phase = .answered event ∨ x.phase = .numbered event →
    x.route.control = none → leavesControlUnknown event = false →
      ∃ terminal, (.answer w (.terminal terminal), .answered) ∈ log

section Recorded

variable {py : Python} {pyStr : Json → String} {log : Log} {b b' : Body} {w : Nat} {i : Input}
variable {o : Output} {x x' : Worker}

theorem Advance.recorded (h : Advance b b' w i o x x') (hx : Recorded log w x) :
    Recorded (log ++ [(i, o)]) w x' := by
  have hmono : ∀ {entry}, entry ∈ log → entry ∈ log ++ [(i, o)] :=
    fun hmem => List.mem_append_left _ hmem
  -- a step that answers nothing
  have hquiet : (∀ exchange, (i, o) ≠ (.answer w exchange, .answered)) → ∀ response,
      (.answer w (.response response), .answered) ∈ log ++ [(i, o)] →
        x.route.control.isSome = true := by
    intro hnone response hmem
    rcases List.mem_append.mp hmem with hold | hlast
    · exact hx.responses response hold
    · exact absurd (List.mem_singleton.mp hlast).symm (hnone _)
  cases h with
  | keep hphase hroute _ _ _ hkeep =>
      refine ⟨?_, fun event hevent hcontrol hreleased => ?_⟩
      · rw [hroute]
        exact hquiet hkeep.1
      · rw [hphase] at hevent
        rw [hroute] at hcontrol
        obtain ⟨terminal, hmem⟩ := hx.released event hevent hcontrol hreleased
        exact ⟨terminal, hmono hmem⟩
  | @answer exchange event hi ho _ hevent =>
      subst hi ho
      refine ⟨fun response hmem => ?_, fun event' hphase hcontrol hreleased => ?_⟩
      · rcases List.mem_append.mp hmem with hold | hlast
        · exact hx.responses response hold
        · have heq := (Prod.mk.inj (List.mem_singleton.mp hlast)).1
          obtain rfl := (Input.answer.inj heq).2
          show x.route.control.isSome = true
          cases hcontrol : x.route.control with
          | none =>
              rw [hcontrol] at hevent
              cases hevent
          | some control => rfl
      · have heq : event = event' := by
          rcases hphase with hphase | hphase
          · exact Phase.answered.inj hphase
          · cases hphase
        subst heq
        rw [show x.route.control = none from hcontrol] at hevent
        obtain ⟨terminal, rfl⟩ := terminal_of_released hevent hreleased
        exact ⟨terminal, by simp⟩
  | @draw event hi hphase _ =>
      subst hi
      refine ⟨hquiet (by simp), fun event' hevent hcontrol hreleased => ?_⟩
      rcases hevent with hevent | hevent
      · cases hevent
      · obtain rfl := Phase.numbered.inj hevent
        obtain ⟨terminal, hmem⟩ := hx.released event (.inl hphase) hcontrol hreleased
        exact ⟨terminal, hmono hmem⟩
  | settle _ hi _ =>
      subst hi
      refine ⟨hquiet (by simp), fun event' hevent => ?_⟩
      rcases hevent with hevent | hevent
      · cases hevent
      · cases hevent

end Recorded

/-! ## The active action -/

section Active

variable {py : Python} {pyStr : Json → String} {b : Body} {i : Input}

/-- How a step changes the active action. -/
theorem step_active (py : Python) (pyStr : Json → String) (b : Body) (i : Input) :
    (step py pyStr b i).2.active = b.active ∨
    (∃ action route data, i = .execute action ∧
      (step py pyStr b i).1 = .accepted b.workers.length route data ∧ b.active = none ∧
      (step py pyStr b i).2.active = some b.workers.length) ∨
    (∃ w x event, i = .settle w ∧ b.active = some w ∧ b.workers[w]? = some x ∧
      x.phase = .numbered event ∧ leavesControlUnknown event = false) ∨
    ∃ c confirm, i = .conclude c ∧ b.confirms[c]? = some confirm ∧ confirm.probe = .archiving [] ∧
      Body.stopped confirm.state = true ∧ b.activeDone = true := by
  cases i with
  | execute action =>
      rcases b.execute_cases py action with ⟨o, h, -⟩ | ⟨route, h, hfree⟩
      · exact .inl (by rw [step, h])
      · by_cases hcontrol : route.control = none
        · refine .inr (.inl ⟨action, route, _, rfl, by rw [step, h], (hfree hcontrol).1, ?_⟩)
          rw [step, h]
          simp [hcontrol]
        · refine .inl ?_
          rw [step, h]
          simp [Option.isNone_iff_eq_none, hcontrol]
  | observerError v =>
      rcases b.observerError_cases v with h | ⟨y, hy, hphase, h⟩
      · exact .inl (by rw [step, h])
      · exact .inl (by rw [step, h, Body.onWorker_active])
  | answer v exchange =>
      rcases b.answer_cases v exchange with h | ⟨y, event, hy, hphase, hevent, h⟩
      · exact .inl (by rw [step, h])
      · exact .inl (by rw [step, h, Body.onWorker_active])
  | draw v =>
      rcases b.draw_cases v with h | ⟨y, event, hy, hphase, h⟩
      · exact .inl (by rw [step, h])
      · exact .inl (by rw [step, h, Body.onWorker_active])
  | settle v =>
      rcases b.settle_cases v with h | ⟨x, event, hx, hphase, -, -, -, -, -, -, hactive⟩
      · exact .inl (by rw [step, h])
      · rw [leavesControlUnknown_withObserverErrors] at hactive
        split at hactive
        · next hrelease => exact .inr (.inr (.inl ⟨v, x, event, rfl, hrelease.1, hx, hphase, hrelease.2⟩))
        · exact .inl hactive
  | lifecycle payload =>
      refine .inl ?_
      simp only [step, Body.onLifecycleEvent]
      split
      · rfl
      · rfl
  | poll => exact .inl rfl
  | sample state => exact .inl rfl
  | candidates c =>
      rcases b.candidates_cases c with h | ⟨f, -, h⟩
      · exact .inl (by rw [step, h])
      · exact .inl (by rw [step, h, Body.onConfirm_active])
  | takeLate c payload =>
      rcases b.takeLate_cases pyStr c payload with h | ⟨f, -, h⟩
      · exact .inl (by rw [step, h])
      · exact .inl (by rw [step, h, Body.onConfirm_active])
  | drawLate c =>
      rcases b.drawLate_cases c with h | ⟨f, -, h⟩
      · exact .inl (by rw [step, h])
      · exact .inl (by rw [step, h, Body.onConfirm_active])
  | storeLate c =>
      rcases b.storeLate_cases c with h | ⟨v, event, f, -, h⟩
      · exact .inl (by rw [step, h])
      · exact .inl (by rw [step, h, Body.onConfirm_active, Body.onWorker_active])
  | conclude c =>
      rcases b.conclude_cases c with h | ⟨confirm, facts, f, hconfirm, hprobe, -, -, -, -, -, -, -, hactive⟩
      · exact .inl (by rw [step, h])
      · split at hactive
        · next hrelease =>
            exact .inr (.inr (.inr ⟨c, confirm, rfl, hconfirm, hprobe, hrelease.1, hrelease.2⟩))
        · exact .inl hactive

/-- A probe keeps the state that it has read. -/
theorem step_confirm {c : Nat} {confirm : Confirm} (h : b.confirms[c]? = some confirm) :
    ∃ confirm', (step py pyStr b i).2.confirms[c]? = some confirm' ∧
      confirm'.state = confirm.state := by
  have hmodify : ∀ {b' : Body} (v : Nat) (f : Confirm → Confirm),
      (∀ confirm : Confirm, (f confirm).state = confirm.state) →
        b'.confirms = b.confirms.modify v f →
          ∃ confirm', b'.confirms[c]? = some confirm' ∧ confirm'.state = confirm.state := by
    intro b' v f hf hconfirms
    rw [hconfirms, List.getElem?_modify, h]
    by_cases hv : v = c
    · exact ⟨f confirm, by simp [hv], hf confirm⟩
    · exact ⟨confirm, by simp [hv], rfl⟩
  cases i with
  | execute action =>
      rcases b.execute_cases py action with ⟨o, h', -⟩ | ⟨route, h', -⟩
      · exact ⟨confirm, by rw [step, h', h], rfl⟩
      · exact ⟨confirm, by rw [step, h', h], rfl⟩
  | observerError v =>
      rcases b.observerError_cases v with h' | ⟨y, hy, hphase, h'⟩
      · exact ⟨confirm, by rw [step, h', h], rfl⟩
      · exact ⟨confirm, by rw [step, h', Body.onWorker_confirms, h], rfl⟩
  | answer v exchange =>
      rcases b.answer_cases v exchange with h' | ⟨y, event, hy, hphase, hevent, h'⟩
      · exact ⟨confirm, by rw [step, h', h], rfl⟩
      · exact ⟨confirm, by rw [step, h', Body.onWorker_confirms, h], rfl⟩
  | draw v =>
      rcases b.draw_cases v with h' | ⟨y, event, hy, hphase, h'⟩
      · exact ⟨confirm, by rw [step, h', h], rfl⟩
      · exact ⟨confirm, by rw [step, h', Body.onWorker_confirms, h], rfl⟩
  | settle v =>
      rcases b.settle_cases v with h' | ⟨x, event, hx, hphase, -, -, -, -, -, hconfirms, -⟩
      · exact ⟨confirm, by rw [step, h', h], rfl⟩
      · exact ⟨confirm, by rw [step, hconfirms, h], rfl⟩
  | lifecycle payload =>
      refine ⟨confirm, ?_, rfl⟩
      simp only [step, Body.onLifecycleEvent]
      split
      · exact h
      · exact h
  | poll => exact ⟨confirm, h, rfl⟩
  | sample state =>
      refine ⟨confirm, ?_, rfl⟩
      exact (List.getElem?_append_left (List.getElem?_eq_some_iff.mp h).1).trans h
  | candidates v =>
      rcases b.candidates_cases v with h' | ⟨f, hf, h'⟩
      · exact ⟨confirm, by rw [step, h', h], rfl⟩
      · exact hmodify v f hf (by rw [step, h', Body.onConfirm_confirms])
  | takeLate v payload =>
      rcases b.takeLate_cases pyStr v payload with h' | ⟨f, hf, h'⟩
      · exact ⟨confirm, by rw [step, h', h], rfl⟩
      · exact hmodify v f hf (by rw [step, h', Body.onConfirm_confirms])
  | drawLate v =>
      rcases b.drawLate_cases v with h' | ⟨f, hf, h'⟩
      · exact ⟨confirm, by rw [step, h', h], rfl⟩
      · exact hmodify v f hf (by rw [step, h', Body.onConfirm_confirms])
  | storeLate v =>
      rcases b.storeLate_cases v with h' | ⟨w, event, f, hf, h'⟩
      · exact ⟨confirm, by rw [step, h', h], rfl⟩
      · exact hmodify v f hf (by rw [step, h', Body.onConfirm_confirms, Body.onWorker_confirms])
  | conclude v =>
      rcases b.conclude_cases v with h' | ⟨confirm', facts, f, -, -, hf, -, -, -, -, -, hconfirms, -⟩
      · exact ⟨confirm, by rw [step, h', h], rfl⟩
      · exact hmodify v f hf (by rw [step, hconfirms])

end Active

/-! ## Runs -/

/-- Every action that is no control is the active one or has ended. -/
structure Owned (log : Log) (b : Body) : Prop where
  accepted : ∀ action w route data, (.execute action, .accepted w route data) ∈ log →
    ∃ x, b.workers[w]? = some x ∧ x.route = route
  answered : ∀ w exchange, (.answer w exchange, .answered) ∈ log → ∃ x, b.workers[w]? = some x
  recorded : ∀ w x, b.workers[w]? = some x → Recorded log w x
  resolved : ∀ (w : Nat) (x : Worker), b.workers[w]? = some x → x.route.control = none →
    b.active = some w ∨ Resolved log w
  sampled : ∀ c state, (.sample state, .sampled c) ∈ log →
    ∃ confirm, b.confirms[c]? = some confirm ∧ confirm.state = state

section Runs

variable {py : Python} {pyStr : Json → String} {log : Log} {b b' : Body} {i : Input} {o : Output}
variable {botName : String}

theorem Advance.route {w : Nat} {x x' : Worker} (h : Advance b b' w i o x x') :
    x'.route = x.route := by
  cases h with
  | keep _ hroute => exact hroute
  | answer => rfl
  | draw => rfl
  | settle => rfl

theorem worker_step {w : Nat} {x : Worker} (h : b.workers[w]? = some x) :
    ∃ x', (step py pyStr b i).2.workers[w]? = some x' ∧ x'.route = x.route := by
  obtain ⟨x', hx', hadvance⟩ := step_worker py pyStr i h
  exact ⟨x', hx', hadvance.route⟩

theorem Owned.step (h : Owned log b) (hok : ¬ StaleRelease log b i) :
    Owned (log ++ [(i, (step py pyStr b i).1)]) (step py pyStr b i).2 where
  accepted := by
    intro action w route data hmem
    rcases List.mem_append.mp hmem with hold | hlast
    · obtain ⟨x, hx, hroute⟩ := h.accepted action w route data hold
      obtain ⟨x', hx', hroute'⟩ := worker_step (i := i) hx
      exact ⟨x', hx', hroute'.trans hroute⟩
    · obtain ⟨rfl, hout⟩ := Prod.mk.inj (List.mem_singleton.mp hlast)
      rcases b.execute_cases py action with ⟨o, h', hno, -⟩ | ⟨route', h', -⟩
      · rw [RealClient.step, h'] at hout
        exact absurd hout.symm (hno w route data)
      · rw [RealClient.step, h'] at hout ⊢
        obtain ⟨rfl, rfl, -⟩ := Output.accepted.inj hout
        exact ⟨_, List.getElem?_concat_length, rfl⟩
  answered := by
    intro w exchange hmem
    rcases List.mem_append.mp hmem with hold | hlast
    · obtain ⟨x, hx⟩ := h.answered w exchange hold
      obtain ⟨x', hx', -⟩ := worker_step (i := i) hx
      exact ⟨x', hx'⟩
    · obtain ⟨rfl, hout⟩ := Prod.mk.inj (List.mem_singleton.mp hlast)
      rcases b.answer_cases w exchange with h' | ⟨x, event, hx, -⟩
      · rw [RealClient.step, h'] at hout
        cases hout
      · obtain ⟨x', hx', -⟩ := worker_step (i := .answer w exchange) hx
        exact ⟨x', hx'⟩
  recorded := by
    intro w x' hx'
    cases hx : b.workers[w]? with
    | none =>
        -- just accepted: there is nothing on it in the log
        obtain ⟨action, route, data, rfl, -, -, rfl⟩ := step_new_worker py pyStr i hx hx'
        refine ⟨fun response hmem => ?_, fun event hphase => ?_⟩
        · rcases List.mem_append.mp hmem with hold | hlast
          · obtain ⟨x, hx''⟩ := h.answered w _ hold
            rw [hx] at hx''
            cases hx''
          · cases (Prod.mk.inj (List.mem_singleton.mp hlast)).1
        · rcases hphase with hphase | hphase
          · cases hphase
          · cases hphase
    | some x =>
        obtain ⟨y, hy, hadvance⟩ := step_worker py pyStr i hx
        obtain rfl := Option.some.inj (hx'.symm.trans hy)
        exact hadvance.recorded (h.recorded w x hx)
  resolved := by
    intro w x' hx' hcontrol
    cases hx : b.workers[w]? with
    | none =>
        obtain ⟨action, route, data, rfl, -, rfl, rfl⟩ := step_new_worker py pyStr i hx hx'
        rcases b.execute_cases py action with ⟨o, h', -⟩ | ⟨route', h', -⟩
        · rw [RealClient.step, h', hx] at hx'
          cases hx'
        · rw [RealClient.step, h'] at hx' ⊢
          rw [List.getElem?_concat_length] at hx'
          obtain rfl : route' = route := congrArg Worker.route (Option.some.inj hx')
          exact .inl (if_pos (Option.isNone_iff_eq_none.mpr hcontrol))
    | some x =>
        obtain ⟨y, hy, hadvance⟩ := step_worker py pyStr i hx
        obtain rfl := Option.some.inj (hx'.symm.trans hy)
        have hcontrol' : x.route.control = none := hadvance.route ▸ hcontrol
        rcases h.resolved w x hx hcontrol' with hactive | hresolved
        · rcases step_active py pyStr b i with hsame | ⟨-, -, -, -, -, hnone, -⟩ |
            ⟨v, z, event, rfl, hv, hz, hphase, hreleased⟩ |
            ⟨c, confirm, rfl, hconfirm, hprobe, hstopped, hdone⟩
          · exact .inl (hsame.trans hactive)
          · rw [hactive] at hnone
            cases hnone
          · -- its worker has ended with a terminal
            obtain rfl := Option.some.inj (hactive.symm.trans hv)
            obtain rfl := Option.some.inj (hx.symm.trans hz)
            obtain ⟨terminal, hmem⟩ :=
              (h.recorded w x hx).released event (.inr hphase) hcontrol' hreleased
            exact .inr (.inl ⟨terminal, List.mem_append_left _ hmem⟩)
          · -- a probe has released it, by a fresh state
            have hfresh : Fresh log c w := not_not.mp fun hstale =>
              hok ⟨confirm, w, hconfirm, hprobe, hstopped, hactive, hdone, hstale⟩
            refine .inr (hfresh.resolved (fun response hmem => ?_) fun state hmem => ?_).mono
            · have hsome := (h.recorded w x hx).responses response hmem
              rw [hcontrol'] at hsome
              cases hsome
            · obtain ⟨confirm', hconfirm', rfl⟩ := h.sampled c state hmem
              rw [Option.some.inj (hconfirm'.symm.trans hconfirm)]
              exact hstopped
        · exact .inr hresolved.mono
  sampled := by
    intro c state hmem
    rcases List.mem_append.mp hmem with hold | hlast
    · obtain ⟨confirm, hconfirm, hstate⟩ := h.sampled c state hold
      obtain ⟨confirm', hconfirm', hstate'⟩ := step_confirm (i := i) hconfirm
      exact ⟨confirm', hconfirm', hstate'.trans hstate⟩
    · obtain ⟨rfl, hout⟩ := Prod.mk.inj (List.mem_singleton.mp hlast)
      obtain rfl := Output.sampled.inj hout
      exact ⟨_, List.getElem?_concat_length, rfl⟩

/-- In a run without a stale release, an action that is no control is
accepted only when every earlier one has ended. -/
theorem one_action_at_a_time
    (hrun : Run (step py pyStr) (fun log b i => ¬ StaleRelease log b i) { botName } log b) :
    OneAtATime log := by
  rintro pre action w route data post rfl hroute action' w' route' data' hmem hroute'
  obtain ⟨b₁, hpre, hpost⟩ := hrun.split
  obtain ⟨hout, -, -⟩ := hpost.head
  have howned : Owned pre b₁ := hpre.invariant
    { accepted := fun _ _ _ _ h => nomatch h
      answered := fun _ _ h => nomatch h
      recorded := fun _ _ h => nomatch h
      resolved := fun _ _ h => nomatch h
      sampled := fun _ _ h => nomatch h }
    fun _ _ _ _ hok h => h.step hok
  obtain ⟨x, hx, rfl⟩ := howned.accepted action' w' route' data' hmem
  rcases b₁.execute_cases py action with ⟨o, h, hno, -⟩ | ⟨route'', h, hfree⟩
  · rw [step, h] at hout
    exact absurd hout.symm (hno w route data)
  · rw [step, h] at hout
    obtain ⟨-, rfl, -⟩ := Output.accepted.inj hout
    rcases howned.resolved w' x hx hroute' with hactive | hresolved
    · rw [(hfree hroute).1] at hactive
      cases hactive
    · exact hresolved

end Runs

/-! ## Two runs -/

/-- A native state that shows nothing active. -/
def idleState : JsonObject :=
  [("active_action_known", .bool true), ("active_action_id", .null),
   ("any_process_active", .bool false), ("pathing", .bool false), ("sampled_at_ms", .int 100)]

/-- The exchange of a worker that gives up. -/
def timedOut (id : String) : Exchange := .transport "RealClientIpcError" ("action timed out: " ++ id)

/-- The worker an action that is no control was accepted with. -/
def acceptedBy : Output → Option Nat
  | .accepted w route _ => if route.control = none then some w else none
  | _ => none

theorem acceptedBy_eq_some {o : Output} {w : Nat} (h : acceptedBy o = some w) :
    ∃ route data, o = .accepted w route data ∧ route.control = none := by
  cases o with
  | accepted w' route data =>
      simp only [acceptedBy, Option.ite_none_right_eq_some, Option.some.injEq] at h
      exact ⟨route, data, by rw [h.2], h.1⟩
  | _ => cases h

/-- An action that is given up, a probe that reads the state after it, and
another action. -/
theorem one_action_at_a_time_fresh : ∃ log : Log, OneAtATime log ∧
    (log.filterMap fun entry : Input × Output => acceptedBy entry.2) = [0, 1] := by
  have hrun : Run (step plainPython fun _ => "") (fun log b i => ¬ StaleRelease log b i)
      { botName := "Bot" } _ _ :=
    (((((((((Run.start).next (.execute (exploreAction "a")) id).next (.answer 0 (timedOut "a"))
      id).next (.draw 0) id).next (.settle 0) id).next (.sample idleState) id).next
        (.candidates 0) id).next (.takeLate 0 none) id).next (.conclude 0) (by
          rintro ⟨confirm, w, -, -, -, hactive, -, hstale⟩
          obtain rfl : 0 = w := Option.some.inj hactive
          exact hstale ⟨[_], timedOut "a", [_, _], idleState, [_, _], rfl⟩)).next (.execute (exploreAction "b")) id
  exact ⟨_, one_action_at_a_time hrun, by decide +kernel⟩

/-- A state read before the action begins, acted on after its worker has given
up. -/
def staleInputs : List Input :=
  [.sample idleState, .candidates 0, .execute (exploreAction "a"), .answer 0 (timedOut "a"),
   .draw 0, .settle 0, .conclude 0]

/-- What resolves an action comes after its request. -/
theorem Resolved.answered {log : Log} {w : Nat} (h : Resolved log w) :
    (∃ exchange, (∀ kind message, exchange ≠ .transport kind message) ∧
      .answer w exchange ∈ log.map Prod.fst) ∨ ∃ state, .sample state ∈ (log.map Prod.fst).tail := by
  rcases h with ⟨terminal, hmem⟩ | ⟨reason, hmem⟩ | ⟨pre, kind, message, mid, state, c, post, rfl, -⟩
  · exact .inl ⟨_, by simp, List.mem_map_of_mem hmem⟩
  · exact .inl ⟨_, by simp, List.mem_map_of_mem hmem⟩
  · refine .inr ⟨state, ?_⟩
    cases pre with
    | nil => simp
    | cons entry pre => simp

/-- Another action is accepted, though nothing tells that the first one has
ended. -/
theorem one_action_at_a_time_stale : ∃ log b,
    Run (step plainPython fun _ => "") (fun _ _ _ => True) { botName := "Bot" } log b ∧
      ¬ OneAtATime log := by
  refine ⟨_, _, .of_inputs (staleInputs ++ [.execute (exploreAction "b")])
    fun _ _ _ _ => trivial, fun hone => ?_⟩
  rw [exec_append] at hone
  have hsecond : acceptedBy (step plainPython (fun _ => "")
      (exec (step plainPython fun _ => "") { botName := "Bot" } staleInputs).2
      (.execute (exploreAction "b"))).1 = some 1 := by
    decide +kernel
  have hfirst : acceptedBy (step plainPython (fun _ => "")
      (exec (step plainPython fun _ => "") { botName := "Bot" } (staleInputs.take 2)).2
      (.execute (exploreAction "a"))).1 = some 0 := by
    decide +kernel
  obtain ⟨route, data, hout, hroute⟩ := acceptedBy_eq_some hsecond
  obtain ⟨route', data', hout', hroute'⟩ := acceptedBy_eq_some hfirst
  have hmem : (.execute (exploreAction "a"), .accepted 0 route' data')
      ∈ (exec (step plainPython fun _ => "") { botName := "Bot" } staleInputs).1 := by
    rw [← hout']
    exact .tail _ (.tail _ (.head _))
  rcases (hone _ _ 1 route data [] (by rw [← hout]; rfl) hroute _ 0 route' data' hmem
    hroute').answered with ⟨exchange, hnone, hanswer⟩ | ⟨state, hsample⟩
  · have hinputs : Input.answer 0 exchange ∈ staleInputs := hanswer
    simp only [staleInputs, List.mem_cons, List.not_mem_nil, reduceCtorEq, false_or, or_false,
      Input.answer.injEq, true_and] at hinputs
    exact hnone _ _ hinputs
  · have hinputs : Input.sample state ∈ staleInputs.tail := hsample
    simp [staleInputs] at hinputs

end RealClient

end MineBot
