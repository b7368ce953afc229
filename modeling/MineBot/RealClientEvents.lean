import MineBot.RealClientBody
import MineBot.Tickets

/-!
# What the real client delivers

Runs of the body, with any number of workers, lifecycle events, probes and
polls. The numbers of its events are tickets: a worker draws the number of
its terminal in one section and queues the terminal in a later one, while a
lifecycle event is numbered and queued in one. So no event is lost or polled
twice, but a terminal is polled after events with larger numbers when it has
been overtaken in between (`Overtakes`).
-/

namespace MineBot

namespace RealClient

open Objective (Python)
open Tickets

/-! ## Numbers -/

/-- The number a worker holds. -/
def Worker.number? (worker : Worker) : Option Int :=
  match worker.phase with
  | .numbered event => some event.seq
  | _ => none

/-- The numbers the workers hold. -/
def held (workers : List Worker) (w : Nat) : Option Int := (workers[w]?).bind Worker.number?

theorem held_eq_some {workers : List Worker} {w : Nat} {n : Int} :
    held workers w = some n ↔
      ∃ worker event, workers[w]? = some worker ∧ worker.phase = .numbered event ∧ event.seq = n := by
  unfold held Worker.number?
  constructor
  · intro h
    obtain ⟨worker, hworker, hnumber⟩ := Option.bind_eq_some_iff.mp h
    split at hnumber
    · next event hphase => exact ⟨worker, event, hworker, hphase, Option.some.inj hnumber⟩
    · cases hnumber
  · rintro ⟨worker, event, hworker, hphase, rfl⟩
    simp [hworker, hphase]

/-- A number is held after a step if it was, and its worker has not ended, or
if it has just been drawn. -/
theorem held_step (py : Python) (pyStr : Json → String) {b : Body} {i : Input} {w : Nat} {n : Int}
    (h : held (step py pyStr b i).2.workers w = some n) :
    (i = .draw w ∧ n = b.lastSeq + 1 ∧ (step py pyStr b i).2.lastSeq = b.lastSeq + 1) ∨
      held b.workers w = some n ∧ Quiet w i (step py pyStr b i).1 := by
  obtain ⟨x', event, hx', hphase', rfl⟩ := held_eq_some.mp h
  cases hx : b.workers[w]? with
  | none =>
      obtain ⟨action, route, data, -, -, -, rfl⟩ := step_new_worker py pyStr i hx hx'
      cases hphase'
  | some x =>
      obtain ⟨y, hy, hadvance⟩ := step_worker py pyStr i hx
      obtain rfl := Option.some.inj (hx'.symm.trans hy)
      cases hadvance with
      | keep hphase _ _ _ _ hquiet =>
          exact .inr ⟨held_eq_some.mpr ⟨x, event, hx, hphase ▸ hphase', rfl⟩, hquiet⟩
      | answer => cases hphase'
      | draw hi _ hlast =>
          obtain rfl := Phase.numbered.inj hphase'
          exact .inl ⟨hi, rfl, hlast⟩
      | settle => cases hphase'

/-! ## What is delivered -/

def polledBy : Output → List Event
  | .polled events => events
  | _ => []

@[simp] theorem polledBy_settled (event : Event) : polledBy (.settled event) = [] := rfl

/-- What the polls of a run returned, one after the other. -/
def polledEvents (log : Log) : List Event := log.flatMap fun entry => polledBy entry.2

/-- What is polled or waits for it. -/
def delivered (log : Log) (b : Body) : List Event := polledEvents log ++ b.eventQueue

/-- The event of a lifecycle event with this native id. -/
def isNative (id : String × Int) (event : Event) : Bool :=
  event.name ∈ lifecycleNames ∧ event.data.get? "native_epoch" = some (.str id.1)
    ∧ event.data.get? "native_seq" = some (.int id.2)

/-- The terminal of the action of a worker. -/
def Body.terminalOf (b : Body) (w : Nat) : Option Event :=
  (b.workers[w]?).bind (·.pending.terminal)

/-- The polls return events in the order of their numbers; the terminal of an
action whose worker ended before a poll is there once, and so is the event of
a native id that came in before it. -/
structure DeliversOnce (log : Log) (b : Body) : Prop where
  increasing : (polledEvents log).Pairwise fun e e' => e.seq < e'.seq
  terminals : ∀ pre out post w event, log = pre ++ (.poll, out) :: post →
    (.settle w, .settled event) ∈ pre →
      b.terminalOf w = some event ∧ (polledEvents log).count event = 1
  lifecycle : ∀ pre out post payload o, log = pre ++ (.poll, out) :: post →
    (.lifecycle payload, o) ∈ pre → payload.name ∈ lifecycleNames →
      (polledEvents log).countP (isNative payload.nativeId) = 1

/-- The input queues an event while a worker holds a smaller number. -/
def Overtakes (b : Body) : Input → Prop
  | .settle w => ∃ n w' n', held b.workers w = some n ∧ held b.workers w' = some n' ∧ n' < n
  | .lifecycle payload =>
      payload.name ∈ lifecycleNames ∧ payload.nativeId ∉ b.lifecycleSeen ∧
        ∃ w' n', held b.workers w' = some n'
  | _ => False

theorem polledEvents_snoc (log : Log) (i : Input) (o : Output) :
    polledEvents (log ++ [(i, o)]) = polledEvents log ++ polledBy o := by
  simp [polledEvents]

theorem isNative_lifecycleEvent {b : Body} {payload : BodyEvent}
    (hname : payload.name ∈ lifecycleNames) (id : String × Int) :
    isNative id (b.lifecycleEvent payload) = decide (payload.nativeId = id) := by
  have hepoch : (b.lifecycleEvent payload).data.get? "native_epoch"
      = some (.str payload.nativeId.1) := by
    simp only [Body.lifecycleEvent, Dict.update_cons, Dict.update_nil]
    rw [Dict.get?_set_of_ne _ (by decide), Dict.get?_set_self]
  have hseq : (b.lifecycleEvent payload).data.get? "native_seq"
      = some (.int payload.nativeId.2) := by
    simp only [Body.lifecycleEvent, Dict.update_cons, Dict.update_nil, Dict.get?_set_self]
  have hkind : (b.lifecycleEvent payload).name ∈ lifecycleNames := hname
  simp only [isNative, hkind, hepoch, hseq, true_and, Option.some.injEq, Json.str.injEq,
    Json.int.injEq, Prod.ext_iff]

/-! ## Names -/

/-- The event a worker has made has the name of a terminal. -/
def Worker.Named (worker : Worker) : Prop :=
  match worker.phase with
  | .answered event | .numbered event => event.name ∉ lifecycleNames
  | _ => True

theorem terminalName_not_lifecycle (name : String) : terminalName name ∉ lifecycleNames := by
  have hall : ∀ entry ∈ terminalNames, entry.2 ∉ lifecycleNames := by decide +kernel
  unfold terminalName
  cases h : terminalNames.get? name with
  | none => decide
  | some terminal => exact hall _ (Dict.mem_of_get? h)

theorem eventOf_name {botName : String} {action : Action} {control : Option Request}
    {exchange : Exchange} {event : Event}
    (h : Body.eventOf botName action control exchange = some event) :
    event.name = terminalName action.name := by
  cases exchange with
  | response response =>
      simp only [Body.eventOf, Option.ite_none_right_eq_some, Option.some.injEq] at h
      rw [← h.2]
      rfl
  | terminal terminal =>
      simp only [Body.eventOf, Option.ite_none_left_eq_some, Option.some.injEq] at h
      rw [← h.2]
      rfl
  | rejected reason =>
      obtain rfl := Option.some.inj h
      rfl
  | transport kind message =>
      obtain rfl := Option.some.inj h
      rfl

@[simp] theorem withObserverErrors_seq (event : Event) (errors : Nat) :
    (Body.withObserverErrors event errors).seq = event.seq := by
  unfold Body.withObserverErrors
  split
  · rfl
  · rfl

@[simp] theorem withObserverErrors_name (event : Event) (errors : Nat) :
    (Body.withObserverErrors event errors).name = event.name := by
  unfold Body.withObserverErrors
  split
  · rfl
  · rfl

theorem Advance.named {b b' : Body} {w : Nat} {i : Input} {o : Output} {x x' : Worker}
    (h : Advance b b' w i o x x') (hx : x.Named) : x'.Named := by
  cases h with
  | keep hphase => rwa [Worker.Named, hphase]
  | answer _ _ _ hevent =>
      show _ ∉ lifecycleNames
      rw [eventOf_name hevent]
      exact terminalName_not_lifecycle _
  | draw _ hphase _ => rwa [Worker.Named, hphase] at hx
  | settle => trivial

/-! ## Steps -/

/-- What a step adds to what is delivered, and to the ids that are seen. -/
inductive Delivers (b : Body) : Input → Output → Body → Prop where
  | quiet {i : Input} {o : Output} {b' : Body} : polledBy o = [] →
      (∀ w event, (i, o) ≠ (.settle w, .settled event)) →
      (∀ payload, i = .lifecycle payload → payload.name ∈ lifecycleNames →
        payload.nativeId ∈ b.lifecycleSeen) →
      b'.eventQueue = b.eventQueue → b.lastSeq ≤ b'.lastSeq →
      b'.lifecycleSeen = b.lifecycleSeen → Delivers b i o b'
  | settle {w : Nat} {x : Worker} {event : Event} {b' : Body} : b.workers[w]? = some x →
      x.phase = .numbered event →
      b'.eventQueue = b.eventQueue ++ [Body.withObserverErrors event x.pending.observerErrors] →
      b'.lastSeq = b.lastSeq → b'.lifecycleSeen = b.lifecycleSeen →
      Delivers b (.settle w)
        (.settled (Body.withObserverErrors event x.pending.observerErrors)) b'
  | lifecycle {payload : BodyEvent} {o : Output} {b' : Body} : polledBy o = [] →
      payload.name ∈ lifecycleNames → payload.nativeId ∉ b.lifecycleSeen →
      b'.eventQueue = b.eventQueue ++ [b.lifecycleEvent payload] → b'.lastSeq = b.lastSeq + 1 →
      b'.lifecycleSeen = payload.nativeId :: b.lifecycleSeen → Delivers b (.lifecycle payload) o b'
  | poll {b' : Body} : b'.eventQueue = [] → b'.lastSeq = b.lastSeq →
      b'.lifecycleSeen = b.lifecycleSeen → Delivers b .poll (.polled b.eventQueue) b'

theorem step_delivers (py : Python) (pyStr : Json → String) (b : Body) (i : Input) :
    Delivers b i (step py pyStr b i).1 (step py pyStr b i).2 := by
  cases i with
  | execute action =>
      rcases b.execute_cases py action with ⟨o, h, -, hpolled⟩ | ⟨route, h, -⟩
      · rw [step, h]
        refine .quiet ?_ (by simp) (by simp) rfl (Int.le_refl _) rfl
        cases o with
        | polled events => exact absurd rfl (hpolled events)
        | _ => rfl
      · rw [step, h]
        exact .quiet rfl (by simp) (by simp) rfl (Int.le_refl _) rfl
  | observerError v =>
      rcases b.observerError_cases v with h | ⟨y, hy, hphase, h⟩
      · rw [step, h]
        exact .quiet rfl (by simp) (by simp) rfl (Int.le_refl _) rfl
      · rw [step, h]
        exact .quiet rfl (by simp) (by simp) rfl (Int.le_refl _) rfl
  | answer v exchange =>
      rcases b.answer_cases v exchange with h | ⟨y, event, hy, hphase, hevent, h⟩
      · rw [step, h]
        exact .quiet rfl (by simp) (by simp) rfl (Int.le_refl _) rfl
      · rw [step, h]
        exact .quiet rfl (by simp) (by simp) rfl (Int.le_refl _) rfl
  | draw v =>
      rcases b.draw_cases v with h | ⟨y, event, hy, hphase, h⟩
      · rw [step, h]
        exact .quiet rfl (by simp) (by simp) rfl (Int.le_refl _) rfl
      · rw [step, h]
        exact .quiet rfl (by simp) (by simp) rfl (Int.le_add_one (Int.le_refl _)) rfl
  | settle v =>
      rcases b.settle_cases v with h | ⟨y, event, hy, hphase, hout, -, hqueue, hlast, hseen, -⟩
      · rw [step, h]
        exact .quiet rfl (by simp) (by simp) rfl (Int.le_refl _) rfl
      · rw [step, hout]
        exact .settle hy hphase hqueue hlast hseen
  | lifecycle payload =>
      simp only [step, Body.onLifecycleEvent]
      split
      · next hskip =>
          refine .quiet rfl (by simp) ?_ rfl (Int.le_refl _) rfl
          rintro payload' heq hname
          obtain rfl := Input.lifecycle.inj heq
          exact hskip.resolve_left (not_not.mpr hname)
      · next hnew =>
          rw [not_or, not_not] at hnew
          exact .lifecycle rfl hnew.1 hnew.2 rfl rfl rfl
  | poll => exact .poll rfl rfl rfl
  | sample state => exact .quiet rfl (by simp) (by simp) rfl (Int.le_refl _) rfl
  | candidates c =>
      rcases b.candidates_cases c with h | ⟨f, -, h⟩
      · rw [step, h]
        exact .quiet rfl (by simp) (by simp) rfl (Int.le_refl _) rfl
      · rw [step, h]
        exact .quiet rfl (by simp) (by simp) rfl (Int.le_refl _) rfl
  | takeLate c payload =>
      rcases b.takeLate_cases pyStr c payload with h | ⟨f, -, h⟩
      · rw [step, h]
        exact .quiet rfl (by simp) (by simp) rfl (Int.le_refl _) rfl
      · rw [step, h]
        exact .quiet rfl (by simp) (by simp) rfl (Int.le_refl _) rfl
  | drawLate c =>
      rcases b.drawLate_cases c with h | ⟨f, -, h⟩
      · rw [step, h]
        exact .quiet rfl (by simp) (by simp) rfl (Int.le_refl _) rfl
      · rw [step, h]
        exact .quiet rfl (by simp) (by simp) rfl (Int.le_add_one (Int.le_refl _)) rfl
  | storeLate c =>
      rcases b.storeLate_cases c with h | ⟨v, event, f, -, h⟩
      · rw [step, h]
        exact .quiet rfl (by simp) (by simp) rfl (Int.le_refl _) rfl
      · rw [step, h]
        exact .quiet rfl (by simp) (by simp) rfl (Int.le_refl _) rfl
  | conclude c =>
      rcases b.conclude_cases c with h | ⟨confirm, facts, f, -, -, -, hout, -, hqueue, hlast, hseen, -⟩
      · rw [step, h]
        exact .quiet rfl (by simp) (by simp) rfl (Int.le_refl _) rfl
      · rw [step, hout]
        exact .quiet rfl (by simp) (by simp) hqueue hlast.ge hseen

/-! ## Runs -/

/-- The numbers of what is delivered. -/
def numbers (log : Log) (b : Body) : List Int := (delivered log b).map Event.seq

/-- What holds along every run. -/
structure Sequenced (log : Log) (b : Body) : Prop where
  drawn : Drawn b.lastSeq (held b.workers) (numbers log b)
  named : ∀ (w : Nat) (x : Worker), b.workers[w]? = some x → x.Named
  settled : ∀ w event, (.settle w, .settled event) ∈ log → event ∈ delivered log b ∧
    ∃ x, b.workers[w]? = some x ∧ x.phase = .ended ∧ x.pending.terminal = some event
  seen : ∀ id, (delivered log b).countP (isNative id) = if id ∈ b.lifecycleSeen then 1 else 0
  received : ∀ payload o, (.lifecycle payload, o) ∈ log → payload.name ∈ lifecycleNames →
    payload.nativeId ∈ b.lifecycleSeen

section Steps

variable {py : Python} {pyStr : Json → String} {log : Log} {b : Body} {i : Input}

/-- The last section of a worker is taken once. -/
theorem ended_step {w : Nat} {x : Worker} (hx : b.workers[w]? = some x) (hphase : x.phase = .ended) :
    ∃ x', (step py pyStr b i).2.workers[w]? = some x' ∧ x'.phase = .ended ∧
      x'.pending.terminal = x.pending.terminal := by
  obtain ⟨x', hx', hadvance⟩ := step_worker py pyStr i hx
  refine ⟨x', hx', ?_⟩
  cases hadvance with
  | keep hphase' _ _ hterminal => exact ⟨hphase'.trans hphase, hterminal⟩
  | answer _ _ hwaiting =>
      rw [hphase] at hwaiting
      cases hwaiting
  | draw _ hanswered =>
      rw [hphase] at hanswered
      cases hanswered
  | settle hnumbered =>
      rw [hphase] at hnumbered
      cases hnumbered

theorem named_step (h : ∀ (w : Nat) (x : Worker), b.workers[w]? = some x → x.Named) :
    ∀ (w : Nat) (x : Worker), (step py pyStr b i).2.workers[w]? = some x → x.Named := by
  intro w x' hx'
  cases hx : b.workers[w]? with
  | none =>
      obtain ⟨action, route, data, -, -, -, rfl⟩ := step_new_worker py pyStr i hx hx'
      trivial
  | some x =>
      obtain ⟨y, hy, hadvance⟩ := step_worker py pyStr i hx
      obtain rfl := Option.some.inj (hx'.symm.trans hy)
      exact hadvance.named (h w x hx)

theorem delivered_snoc {o : Output} {b' : Body} {new : List Event}
    (h : polledBy o ++ b'.eventQueue = b.eventQueue ++ new) :
    delivered (log ++ [(i, o)]) b' = delivered log b ++ new := by
  rw [delivered, polledEvents_snoc, List.append_assoc, h, delivered, List.append_assoc]

theorem numbers_snoc {o : Output} {b' : Body} {new : List Event}
    (h : polledBy o ++ b'.eventQueue = b.eventQueue ++ new) :
    numbers (log ++ [(i, o)]) b' = numbers log b ++ new.map Event.seq := by
  rw [numbers, delivered_snoc h, List.map_append, numbers]

/-- What is put out by a step, as a part of what is delivered. -/
theorem Delivers.new {o : Output} {b' : Body} (h : Delivers b i o b') :
    ∃ new, polledBy o ++ b'.eventQueue = b.eventQueue ++ new := by
  cases h with
  | quiet hpolled _ _ hqueue => exact ⟨[], by rw [hpolled, hqueue]; simp⟩
  | settle _ _ hqueue => exact ⟨_, hqueue⟩
  | lifecycle hpolled _ _ hqueue => exact ⟨_, by rw [hpolled, hqueue]; rfl⟩
  | poll hqueue => exact ⟨[], by rw [hqueue]; rfl⟩

/-- The numbers, step by step. -/
theorem drawn_step (h : Drawn b.lastSeq (held b.workers) (numbers log b)) :
    Drawn (step py pyStr b i).2.lastSeq (held (step py pyStr b i).2.workers)
      (numbers (log ++ [(i, (step py pyStr b i).1)]) (step py pyStr b i).2) := by
  have hheld := fun w n => held_step py pyStr (b := b) (i := i) (w := w) (n := n)
  have hdelivers := step_delivers py pyStr b i
  generalize (step py pyStr b i).1 = o at hheld hdelivers ⊢
  generalize (step py pyStr b i).2 = b' at hheld hdelivers ⊢
  cases hdelivers with
  | quiet hpolled _ _ hqueue hle _ =>
      have hnumbers : numbers (log ++ [(i, o)]) b' = numbers log b := by
        rw [numbers_snoc (b := b) (by rw [hpolled, hqueue, List.nil_append, List.append_nil]),
          List.map_nil, List.append_nil]
      rw [hnumbers]
      by_cases hdraw : (∃ w, i = .draw w) ∧ b'.lastSeq = b.lastSeq + 1
      · obtain ⟨⟨w, rfl⟩, hlast⟩ := hdraw
        rw [hlast]
        refine h.draw (w := w) fun w' n hn => ?_
        rcases hheld w' n hn with ⟨hi, hn, -⟩ | ⟨hold, -⟩
        · exact .inl ⟨(Input.draw.inj hi).symm, hn⟩
        · exact .inr hold
      · refine h.mono hle fun w n hn => ?_
        rcases hheld w n hn with ⟨hi, -, hlast⟩ | ⟨hold, -⟩
        · exact absurd ⟨⟨w, hi⟩, hlast⟩ hdraw
        · exact hold
  | @settle w x event _ hx hphase hqueue hlast _ =>
      rw [numbers_snoc (b := b) (by rw [polledBy_settled, hqueue, List.nil_append]),
        List.map_singleton, withObserverErrors_seq, hlast]
      refine h.putOut (held_eq_some.mpr ⟨x, event, hx, hphase, rfl⟩) fun w' n hn => ?_
      rcases hheld w' n hn with ⟨hi, -⟩ | ⟨hold, hquiet⟩
      · cases hi
      · refine ⟨?_, hold⟩
        rintro rfl
        exact hquiet.2 _ rfl
  | lifecycle hpolled _ _ hqueue hlast _ =>
      rw [numbers_snoc (b := b) (by rw [hpolled, hqueue, List.nil_append]), List.map_singleton,
        hlast]
      refine h.push fun w n hn => ?_
      rcases hheld w n hn with ⟨hi, -⟩ | ⟨hold, -⟩
      · cases hi
      · exact hold
  | poll hqueue hlast _ =>
      rw [numbers_snoc (b := b) (by rw [hqueue, polledBy]), List.map_nil, List.append_nil, hlast]
      refine h.mono (Int.le_refl _) fun w n hn => ?_
      rcases hheld w n hn with ⟨hi, -⟩ | ⟨hold, -⟩
      · cases hi
      · exact hold

theorem countP_snoc (p : Event → Bool) (l : List Event) (event : Event) :
    (l ++ [event]).countP p = l.countP p + (p event).toNat := by
  rw [List.countP_append, List.countP_singleton]
  cases p event
  · rfl
  · rfl

/-- The events of each native id, step by step. -/
theorem seen_step (hnamed : ∀ (w : Nat) (x : Worker), b.workers[w]? = some x → x.Named)
    (h : ∀ id, (delivered log b).countP (isNative id) = if id ∈ b.lifecycleSeen then 1 else 0)
    (id : String × Int) :
    (delivered (log ++ [(i, (step py pyStr b i).1)]) (step py pyStr b i).2).countP (isNative id)
      = if id ∈ (step py pyStr b i).2.lifecycleSeen then 1 else 0 := by
  have hdelivers := step_delivers py pyStr b i
  generalize (step py pyStr b i).1 = o at hdelivers ⊢
  generalize (step py pyStr b i).2 = b' at hdelivers ⊢
  cases hdelivers with
  | quiet hpolled _ _ hqueue _ hseen =>
      rw [delivered_snoc (b := b) (by rw [hpolled, hqueue, List.nil_append, List.append_nil]),
        List.append_nil, h, hseen]
  | @settle w x event _ hx hphase hqueue _ hseen =>
      have hname := hnamed w x hx
      rw [Worker.Named, hphase] at hname
      have hterminal : isNative id (Body.withObserverErrors event x.pending.observerErrors)
          = false := by
        refine decide_eq_false fun hnative => hname ?_
        rw [← withObserverErrors_name event x.pending.observerErrors]
        exact hnative.1
      rw [delivered_snoc (b := b) (by rw [polledBy_settled, hqueue, List.nil_append]),
        countP_snoc, h, hterminal, hseen]
      rfl
  | @lifecycle payload _ _ hpolled hname hnew hqueue _ hseen =>
      rw [delivered_snoc (b := b) (by rw [hpolled, hqueue, List.nil_append]), countP_snoc, h,
        isNative_lifecycleEvent hname, hseen]
      by_cases hid : payload.nativeId = id
      · subst hid
        rw [if_neg hnew, if_pos List.mem_cons_self, decide_eq_true rfl]
        rfl
      · have hmem : id ∈ payload.nativeId :: b.lifecycleSeen ↔ id ∈ b.lifecycleSeen := by
          simp [Ne.symm hid]
        rw [decide_eq_false hid]
        simp only [hmem]
        rfl
  | poll hqueue _ hseen =>
      rw [delivered_snoc (b := b) (by rw [hqueue, polledBy]), List.append_nil, h, hseen]

theorem Sequenced.step (h : Sequenced log b) :
    Sequenced (log ++ [(i, (step py pyStr b i).1)]) (step py pyStr b i).2 where
  drawn := drawn_step h.drawn
  named := named_step h.named
  settled := by
    intro w event hmem
    obtain ⟨new, hnew⟩ := (step_delivers py pyStr b i).new
    rw [delivered_snoc hnew]
    rcases List.mem_append.mp hmem with hold | hlast
    · obtain ⟨hdelivered, x, hx, hphase, hterminal⟩ := h.settled w event hold
      obtain ⟨x', hx', hphase', hterminal'⟩ := ended_step hx hphase
      exact ⟨List.mem_append_left _ hdelivered, x', hx', hphase', hterminal'.trans hterminal⟩
    · obtain ⟨rfl, hout⟩ := Prod.mk.inj (List.mem_singleton.mp hlast)
      rcases b.settle_cases w with hnone | ⟨x, event', hx, hphase, hout', hworkers, hqueue, -⟩
      · rw [RealClient.step, hnone] at hout
        cases hout
      · obtain rfl := Output.settled.inj (hout.trans hout')
        refine ⟨List.mem_append_right _ ?_, ?_⟩
        · have hsuffix : new = [_] := List.append_cancel_left (hnew.symm.trans
            (by rw [RealClient.step, hout', polledBy_settled, hqueue, List.nil_append]))
          rw [hsuffix]
          exact List.mem_singleton_self _
        · refine ⟨Body.ended _ x, ?_, rfl, rfl⟩
          rw [RealClient.step, hworkers, List.getElem?_modify_eq, hx]
          rfl
  seen := seen_step h.named h.seen
  received := by
    intro payload o hmem hname
    have hdelivers := step_delivers py pyStr b i
    rcases List.mem_append.mp hmem with hold | hlast
    · have hseen := h.received payload o hold hname
      generalize (RealClient.step py pyStr b i).1 = o' at hdelivers
      generalize (RealClient.step py pyStr b i).2 = b' at hdelivers ⊢
      cases hdelivers with
      | quiet _ _ _ _ _ heq => rwa [heq]
      | settle _ _ _ _ heq => rwa [heq]
      | lifecycle _ _ _ _ _ heq =>
          rw [heq]
          exact List.mem_cons_of_mem _ hseen
      | poll _ _ heq => rwa [heq]
    · obtain ⟨rfl, rfl⟩ := Prod.mk.inj (List.mem_singleton.mp hlast)
      generalize (RealClient.step py pyStr b (.lifecycle payload)).1 = o' at hdelivers
      generalize (RealClient.step py pyStr b (.lifecycle payload)).2 = b' at hdelivers ⊢
      cases hdelivers with
      | quiet _ _ hskip _ _ heq =>
          rw [heq]
          exact hskip payload rfl hname
      | lifecycle _ _ _ _ _ heq =>
          rw [heq]
          exact List.mem_cons_self

end Steps

variable {py : Python} {pyStr : Json → String} {log : Log} {b : Body} {botName : String}
variable {ok : Log → Body → Input → Prop}

/-- Every run numbers its events once and delivers them once. -/
theorem Run.sequenced (hrun : Run (step py pyStr) ok { botName } log b) : Sequenced log b :=
  hrun.invariant
    { drawn := .start
      named := fun _ _ h => nomatch h
      settled := fun _ _ h => nomatch h
      seen := fun _ => rfl
      received := fun _ _ h => nomatch h }
    fun _ _ _ _ _ h => h.step

/-- Where no event overtakes a worker, the events come in order. -/
theorem Run.inOrder (hrun : Run (step py pyStr) (fun _ b i => ¬ Overtakes b i) { botName } log b) :
    InOrder (held b.workers) (numbers log b) := by
  induction hrun with
  | start => exact .start
  | @next log b i hrun hok ih =>
      have hdrawn := (Run.sequenced hrun).drawn
      have hheld := fun w n => held_step py pyStr (b := b) (i := i) (w := w) (n := n)
      have hdelivers := step_delivers py pyStr b i
      generalize (step py pyStr b i).1 = o at hheld hdelivers ⊢
      generalize (step py pyStr b i).2 = b' at hheld hdelivers ⊢
      cases hdelivers with
      | quiet hpolled _ _ hqueue hle _ =>
          have hnumbers : numbers (log ++ [(i, o)]) b' = numbers log b := by
            rw [numbers_snoc (b := b) (by rw [hpolled, hqueue, List.nil_append, List.append_nil]),
              List.map_nil, List.append_nil]
          rw [hnumbers]
          refine ⟨ih.increasing, fun w n hn m hm => ?_⟩
          rcases hheld w n hn with ⟨-, rfl, -⟩ | ⟨hold, -⟩
          · exact Int.lt_add_one_of_le (hdrawn.below m hm)
          · exact ih.ahead w n hold m hm
      | @settle w x event _ hx hphase hqueue hlast _ =>
          have hw : held b.workers w = some event.seq := held_eq_some.mpr ⟨x, event, hx, hphase, rfl⟩
          rw [numbers_snoc (b := b) (by rw [polledBy_settled, hqueue, List.nil_append]),
            List.map_singleton, withObserverErrors_seq]
          refine ih.snoc (ih.ahead w _ hw) fun w' n hn => ?_
          rcases hheld w' n hn with ⟨hi, -⟩ | ⟨hold, hquiet⟩
          · cases hi
          · refine ⟨hold, lt_of_le_of_ne (not_lt.mp fun hlt => hok ⟨_, w', n, hw, hold, hlt⟩) ?_⟩
            rintro rfl
            obtain rfl := hdrawn.heldDistinct w' w _ hold hw
            exact hquiet.2 _ rfl
      | @lifecycle payload _ _ hpolled hname hnew hqueue hlast _ =>
          rw [numbers_snoc (b := b) (by rw [hpolled, hqueue, List.nil_append]), List.map_singleton]
          refine ih.snoc (fun m hm => Int.lt_add_one_of_le (hdrawn.below m hm)) fun w n hn => ?_
          rcases hheld w n hn with ⟨hi, -⟩ | ⟨hold, -⟩
          · cases hi
          · exact absurd ⟨hname, hnew, w, n, hold⟩ hok
      | poll hqueue hlast _ =>
          rw [numbers_snoc (b := b) (by rw [hqueue, polledBy]), List.map_nil, List.append_nil]
          refine ih.mono fun w n hn => ?_
          rcases hheld w n hn with ⟨hi, -⟩ | ⟨hold, -⟩
          · cases hi
          · exact hold

/-- After a poll, all that was delivered is polled. -/
theorem delivered_poll {pre post : Log} {out : Output}
    (hrun : Run (step py pyStr) ok { botName } (pre ++ (.poll, out) :: post) b) :
    ∃ b₁, Run (step py pyStr) ok { botName } pre b₁ ∧ ∃ more,
      polledEvents (pre ++ (.poll, out) :: post) = delivered pre b₁ ++ more := by
  obtain ⟨b₁, hpre, hpost⟩ := hrun.split
  obtain ⟨hout, -, -⟩ := hpost.head
  refine ⟨b₁, hpre, polledEvents post, ?_⟩
  rw [hout]
  simp [polledEvents, delivered, step, Body.pollEvents, polledBy]

/-- In a run in which no event is queued while a worker holds a smaller
number, every event is polled once, and they are polled in order. -/
theorem poll_events_once
    (hrun : Run (step py pyStr) (fun _ b i => ¬ Overtakes b i) { botName } log b) :
    DeliversOnce log b where
  increasing := by
    have hdelivered := (Run.inOrder hrun).increasing
    rw [numbers, delivered, List.map_append] at hdelivered
    exact List.pairwise_map.mp (List.pairwise_append.mp hdelivered).1
  terminals := by
    rintro pre out post w event rfl hsettle
    obtain ⟨b₁, hpre, more, hmore⟩ := delivered_poll hrun
    obtain ⟨-, x, hx, -, hterminal⟩ := (Run.sequenced hrun).settled w event
      (List.mem_append_left _ hsettle)
    refine ⟨by rw [Body.terminalOf, hx]; exact hterminal, ?_⟩
    have hdistinct := (Run.sequenced hrun).drawn.distinct
    rw [numbers, delivered, List.map_append] at hdistinct
    have hnodup := List.Nodup.of_map _ (List.nodup_append.mp hdistinct).1
    refine List.count_eq_one_of_mem hnodup ?_
    rw [hmore]
    exact List.mem_append_left _ ((Run.sequenced hpre).settled w event hsettle).1
  lifecycle := by
    rintro pre out post payload o rfl hreceived hname
    obtain ⟨b₁, hpre, more, hmore⟩ := delivered_poll hrun
    have hseen := (Run.sequenced hpre).seen payload.nativeId
    rw [if_pos ((Run.sequenced hpre).received payload o hreceived hname)] at hseen
    have hall := (Run.sequenced hrun).seen payload.nativeId
    rw [delivered, List.countP_append] at hall
    have hle : (polledEvents (pre ++ (.poll, out) :: post)).countP (isNative payload.nativeId) ≤ 1 := by
      split at hall
      · omega
      · omega
    rw [hmore, List.countP_append, hseen] at hle ⊢
    omega

/-! ## Two runs -/

/-- Where there is one worker, it overtakes no other. -/
theorem not_overtakes_alone {w : Nat} (h : b.workers.length ≤ 1) : ¬ Overtakes b (.settle w) := by
  rintro ⟨n, w', n', hw, hw', hlt⟩
  obtain ⟨x, event, hx, hphase, rfl⟩ := held_eq_some.mp hw
  obtain ⟨x', event', hx', hphase', rfl⟩ := held_eq_some.mp hw'
  obtain rfl : w = w' := by
    have hlen := (List.getElem?_eq_some_iff.mp hx).1
    have hlen' := (List.getElem?_eq_some_iff.mp hx').1
    omega
  obtain rfl := Option.some.inj (hx.symm.trans hx')
  obtain rfl := Phase.numbered.inj (hphase.symm.trans hphase')
  exact lt_irrefl _ hlt

/-- Nor does anything where no worker holds a number. -/
theorem not_overtakes_none {payload : BodyEvent} (h : ∀ x ∈ b.workers, x.number? = none) :
    ¬ Overtakes b (.lifecycle payload) := by
  rintro ⟨-, -, w, n, hw⟩
  obtain ⟨x, hx, hn⟩ := Option.bind_eq_some_iff.mp hw
  rw [h x (List.mem_of_getElem? hx)] at hn
  cases hn

def canceled (id : String) : Terminal := ⟨id, "canceled", "cancel_requested", []⟩

def death : BodyEvent := ⟨"death", some "epoch-1", some 7, some 400, none⟩

/-- The numbers and the names of what a run has polled. -/
def polledNames (log : Log) : List (Int × String) :=
  (polledEvents log).map fun event => (event.seq, event.name)

/-- A death that is reported after the worker has ended comes after its
terminal. -/
theorem poll_events_once_calm : ∃ log b, DeliversOnce log b ∧
    polledNames log = [(1, "exploreDone"), (2, "death")] := by
  have hrun : Run (step plainPython fun _ => "") (fun _ b i => ¬ Overtakes b i)
      { botName := "Bot" } _ _ :=
    ((((((Run.start).next (.execute (exploreAction "a")) id).next
      (.answer 0 (.terminal (canceled "a"))) id).next (.draw 0) id).next (.settle 0)
        (not_overtakes_alone (by decide +kernel))).next (.lifecycle death)
          (not_overtakes_none (by decide +kernel))).next .poll id
  exact ⟨_, _, poll_events_once hrun, by decide +kernel⟩

/-- A death that is reported while the worker holds its number, and polled
before the worker has ended. -/
def overtakenInputs : List Input :=
  [.execute (exploreAction "a"), .answer 0 (.terminal (canceled "a")), .draw 0, .lifecycle death,
   .poll, .settle 0, .poll]

/-- Then the polls return the terminal after the death, whose number is
larger. -/
theorem poll_events_overtaken : ∃ log b,
    Run (step plainPython fun _ => "") (fun _ _ _ => True) { botName := "Bot" } log b ∧
      polledNames log = [(2, "death"), (1, "exploreDone")] ∧ ¬ DeliversOnce log b := by
  have hnames : polledNames (exec (step plainPython fun _ => "") { botName := "Bot" }
      overtakenInputs).1 = [(2, "death"), (1, "exploreDone")] := by
    decide +kernel
  refine ⟨_, _, .of_inputs overtakenInputs fun _ _ _ _ => trivial, hnames, fun honce => ?_⟩
  have hincreasing := List.pairwise_map.mpr honce.increasing
  rw [show Event.seq = Prod.fst ∘ fun event : Event => (event.seq, event.name) from rfl,
    ← List.map_map] at hincreasing
  rw [polledNames] at hnames
  rw [hnames] at hincreasing
  exact absurd hincreasing (by decide)

end RealClient

end MineBot
