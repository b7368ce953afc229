import MineBot.WorkExecutor

/-!
# What a step of the executor can do

The executor's functions call one another with the record of the top frame
changed on the way. Here each of them is read once: `Move` lists what can
become of the top frame, and `Effect` what a whole step can do. Everything
later is proved by cases on these two.

A store is never rewritten except in three ways: the object of the top frame
changes in place (`Keeps` says what stays of it), a repeat counts in the base
record, and a key gets a new object.
-/

namespace MineBot

namespace WorkRuntime

/-! ## Stores -/

namespace Store

variable {store : Store} {ref i : Nat} {f g : NodeRecord → NodeRecord} {key : String}
variable {record : NodeRecord}

@[simp] theorem records_modify : (store.modify ref f).records = store.records := rfl

@[simp] theorem length_modify : (store.modify ref f).objects.length = store.objects.length :=
  List.length_modify ..

theorem object_modify_of_ne (h : i ≠ ref) : (store.modify ref f).object i = store.object i := by
  simp [object, modify, Ne.symm h]

theorem object_modify_self (h : ref < store.objects.length) :
    (store.modify ref f).object ref = f (store.object ref) := by
  simp [object, modify, h]

theorem object_modify_of_le (h : store.objects.length ≤ ref) :
    (store.modify ref f).object i = store.object i := by
  by_cases hi : i = ref
  · subst hi
    simp [object, modify, h]
  · exact object_modify_of_ne hi

theorem object_modify_or (store : Store) (ref i : Nat) (f : NodeRecord → NodeRecord) :
    (store.modify ref f).object i = store.object i ∨
      i = ref ∧ (store.modify ref f).object i = f (store.object i) := by
  by_cases hi : i = ref
  · subst hi
    rcases Nat.lt_or_ge i store.objects.length with hlt | hle
    · exact .inr ⟨rfl, object_modify_self hlt⟩
    · exact .inl (object_modify_of_le hle)
  · exact .inl (object_modify_of_ne hi)

/-- What `f` leaves alone, `modify` does. -/
theorem object_modify_congr {α : Sort*} {p : NodeRecord → α} (h : ∀ r, p (f r) = p r) :
    p ((store.modify ref f).object i) = p (store.object i) := by
  rcases object_modify_or store ref i f with he | ⟨-, he⟩
  · rw [he]
  · rw [he, h]

/-- What holds of `f r` only where it holds of `r`. -/
theorem object_modify_imp {p : NodeRecord → Prop} (hp : p ((store.modify ref f).object i))
    (h : ∀ r, p (f r) → p r) : p (store.object i) := by
  rcases object_modify_or store ref i f with he | ⟨-, he⟩
  · rwa [he] at hp
  · exact h _ (he ▸ hp)

@[simp] theorem length_put : (store.put key record).objects.length = store.objects.length + 1 := by
  simp [put]

@[simp] theorem records_put :
    (store.put key record).records = store.records.set key store.objects.length := rfl

theorem object_put_of_lt (h : i < store.objects.length) :
    (store.put key record).object i = store.object i := by
  simp [object, put, List.getElem?_append_left h]

@[simp] theorem object_put_self : (store.put key record).object store.objects.length = record := by
  simp [object, put]

end Store

/-! ## Records -/

/-- A call of this record has been dispatched. -/
def NodeRecord.Touched (record : NodeRecord) : Prop :=
  record.result.isSome ∨ record.interruption.isSome

namespace Phase

/-- The phases of a call. -/
def OfCall : Phase → Prop
  | .callState | .tool .. | .decisionState .. | .judge | .decision | .inspect
  | .handler _ | .handlerState | .handlerChoice | .equipment => True
  | _ => False

/-- The phases of a call after its dispatch. -/
def Begun : Phase → Prop
  | .tool .. | .decisionState .. | .judge | .decision | .inspect
  | .handler _ | .handlerState | .handlerChoice | .equipment => True
  | _ => False

/-- The phases in which no child runs. -/
def Alone : Phase → Prop
  | .steps _ | .items _ | .option _ | .handler _ | .equipment => False
  | _ => True

theorem Begun.ofCall {phase : Phase} (h : phase.Begun) : phase.OfCall := by
  cases phase <;> trivial

end Phase

namespace Frame

def Calls (frame : Frame) : Prop := frame.node.isCall ∨ frame.phase.OfCall

/-- The call of the frame has been dispatched. -/
def Begun (store : Store) (frame : Frame) : Prop :=
  frame.invocation ≠ 0 ∨ frame.phase.Begun ∨ (store.object frame.ref).Touched

theorem begun_of_phase {store : Store} {frame : Frame} (h : frame.phase.Begun) :
    frame.Begun store :=
  .inr (.inl h)

theorem calls_of_phase {frame : Frame} (h : frame.phase.Begun) : frame.Calls := .inr h.ofCall

end Frame

/-- The objects of `new` are those of `old`, but for the one at `ref` and for
the count of repeats of the base record. -/
structure Amends (baseKey : String) (ref : Nat) (old new : Store) : Prop where
  records : new.records = old.records
  length : new.objects.length = old.objects.length
  others : ∀ i, i ≠ ref → new.object i = old.object i ∨
    old.records.get? baseKey = some i ∧ ∃ n, new.object i = { old.object i with repeatCount := n }
  signature : (new.object ref).signature = (old.object ref).signature

/-- What becomes of the object of `frame`, its status apart. -/
structure Keeps (frame : Frame) (ref : Nat) (old new : Store) : Prop
    extends Amends frame.baseKey ref old new where
  choice : (new.object ref).choiceId = (old.object ref).choiceId
  touched : (new.object ref).Touched → (old.object ref).Touched ∨ frame.Begun old

/-- The object does not become done. -/
def Pending (ref : Nat) (old new : Store) : Prop :=
  (new.object ref).status = .done → (old.object ref).status = .done

theorem Amends.trans {key : String} {ref : Nat} {a b c : Store} (h : Amends key ref a b)
    (h' : Amends key ref b c) : Amends key ref a c := by
  refine ⟨h'.records.trans h.records, h'.length.trans h.length, fun i hi => ?_,
    h'.signature.trans h.signature⟩
  rcases h.others i hi with hb | ⟨hk, n, hb⟩ <;> rcases h'.others i hi with hc | ⟨hk', m, hc⟩
  · exact .inl (hc.trans hb)
  · exact .inr ⟨h.records ▸ hk', m, by rw [hc, hb]⟩
  · exact .inr ⟨hk, n, hc.trans hb⟩
  · exact .inr ⟨hk, m, by rw [hc, hb]⟩

theorem Amends.modify (key : String) (ref : Nat) (store : Store) {f : NodeRecord → NodeRecord}
    (h : ∀ r, (f r).signature = r.signature) : Amends key ref store (store.modify ref f) where
  records := rfl
  length := Store.length_modify
  others _ hi := .inl (Store.object_modify_of_ne hi)
  signature := Store.object_modify_congr h

/-- A repeat is counted. -/
theorem Amends.count (frame : Frame) (store : Store) :
    Amends frame.baseKey frame.ref store
      (store.modify ((store.records.get? frame.baseKey).getD frame.ref) fun record =>
        { record with repeatCount := record.repeatCount + 1 }) where
  records := rfl
  length := Store.length_modify
  others i hi := by
    by_cases h : i = (store.records.get? frame.baseKey).getD frame.ref
    · cases hget : store.records.get? frame.baseKey with
      | none => exact absurd (by simpa [hget] using h) hi
      | some base =>
          obtain rfl : i = base := by simpa [hget] using h
          rcases Nat.lt_or_ge i store.objects.length with hlt | hle
          · exact .inr ⟨rfl, _, Store.object_modify_self hlt⟩
          · exact .inl (Store.object_modify_of_le hle)
    · exact .inl (Store.object_modify_of_ne h)
  signature := Store.object_modify_congr fun _ => rfl

/-! ## A state on the way -/

/-- What a change of a record leaves alone, and that it does not end it. -/
structure Mild (f : NodeRecord → NodeRecord) : Prop where
  signature : ∀ r, (f r).signature = r.signature
  choice : ∀ r, (f r).choiceId = r.choiceId
  status : ∀ r, (f r).status = .done → r.status = .done

theorem Mild.id : Mild id := ⟨fun _ => rfl, fun _ => rfl, fun _ h => h⟩

theorem Mild.block (reason : String) : Mild (NodeRecord.block reason) :=
  ⟨fun _ => rfl, fun _ => rfl, fun _ h => by simp [NodeRecord.block] at h⟩

theorem Mild.setStatus {status : NodeStatus} (h : status ≠ .done) :
    Mild (NodeRecord.setStatus status) :=
  ⟨fun _ => rfl, fun _ => rfl, fun _ hd => absurd hd h⟩

/-- `s` is `s₀` with the record of its top frame changed. -/
structure Working (s₀ : State) (frame : Frame) (rest : List Frame) (s : State) : Prop where
  stack : s.stack = frame :: rest
  executor : s.executor = s₀.executor
  control : s.control = s₀.control
  keeps : Keeps frame frame.ref s₀.store s.store
  pending : Pending frame.ref s₀.store s.store

/-- The top frame is a call that has been dispatched. -/
structure InCall (s : State) (frame : Frame) : Prop where
  calls : frame.Calls
  begun : frame.Begun s.store

theorem InCall.of_phase {s : State} {frame : Frame} (h : frame.phase.Begun) : InCall s frame :=
  ⟨Frame.calls_of_phase h, Frame.begun_of_phase h⟩

theorem Keeps.refl (frame : Frame) (ref : Nat) (store : Store) : Keeps frame ref store store where
  records := rfl
  length := rfl
  others _ _ := .inl rfl
  signature := rfl
  choice := rfl
  touched := .inl

theorem Working.refl {s : State} {frame : Frame} {rest : List Frame} (h : s.stack = frame :: rest) :
    Working s frame rest s :=
  ⟨h, rfl, rfl, .refl .., id⟩

theorem Keeps.modify {frame : Frame} {ref : Nat} {a b : Store} {f : NodeRecord → NodeRecord}
    (h : Keeps frame ref a b) (hf : Mild f)
    (ht : (∀ r, (f r).Touched → r.Touched) ∨ frame.Begun a) :
    Keeps frame ref a (b.modify ref f) where
  toAmends := h.toAmends.trans (.modify _ _ _ hf.signature)
  choice := (Store.object_modify_congr hf.choice).trans h.choice
  touched hb := ht.elim (fun ht => h.touched (Store.object_modify_imp (p := NodeRecord.Touched) hb ht)) .inr

theorem Pending.modify {ref : Nat} {a b : Store} {f : NodeRecord → NodeRecord}
    (h : Pending ref a b) (hf : Mild f) : Pending ref a (b.modify ref f) :=
  fun hd => h (Store.object_modify_imp (p := fun r => r.status = .done) hd hf.status)

namespace Working

variable {s₀ s : State} {frame : Frame} {rest : List Frame} {f : NodeRecord → NodeRecord}

theorem goOn (w : Working s₀ frame rest s) (hf : Mild f)
    (ht : (∀ r, (f r).Touched → r.Touched) ∨ frame.Begun s₀.store) :
    Working s₀ frame rest (s.goOn frame rest f s.control) :=
  ⟨rfl, w.executor, w.control, w.keeps.modify hf ht, w.pending.modify hf⟩

theorem goOn_eq (w : Working s₀ frame rest s) (phase : Phase) (control : Control) :
    s.goOn { frame with phase } rest f control =
      ⟨s.store.modify frame.ref f, s₀.executor, { frame with phase } :: rest, control⟩ := by
  rw [State.goOn, w.executor]

theorem leave_eq (w : Working s₀ frame rest s) (status : NodeStatus) :
    s.leave frame rest f status =
      ⟨s.store.modify frame.ref f, s₀.executor, rest, .returning status⟩ := by
  rw [State.leave, w.executor]

end Working

/-! ## What becomes of the top frame -/

/-- The children of a frame: the phase it waits in, the last step of their
path, the node and its item. -/
inductive Child (plan : WorkPlan) (frame : Frame) : Phase → PathStep → WorkNode → Json → Prop where
  | step {head : NodeHead} {steps : List WorkNode} {i : Nat} {child : WorkNode} :
      frame.node = .sequence head steps → steps[i]? = some child →
      Child plan frame (.steps i) (.step i) child frame.item
  | item {head : NodeHead} {items : List Json} {body : WorkNode} {i : Nat} {value : Json} :
      frame.node = .batch head false items body → items[i]? = some value →
      Child plan frame (.items i) (.item i) (body.forItem i) value
  | adaptive {head : NodeHead} {items offered remaining : List Json} {body : WorkNode}
      {value : Json} :
      frame.node = .batch head true items body → frame.phase = .adaptive offered →
      value ∈ offered → remaining ⊆ offered →
      Child plan frame (.adaptive remaining) (.item (items.length - remaining.length - 1))
        (body.forItem (items.length - remaining.length - 1)) value
  | option {head : NodeHead} {fromRuntime : Bool} {options : List (String × WorkNode)}
      {id id' : String} {work : WorkNode} :
      frame.node = .choice head fromRuntime options →
      options.find? (·.1 = id) = some (id', work) →
      Child plan frame (.option id) (.option id) work frame.item
  | handler {handler : WorkNode} {attempt : Nat} :
      frame.Calls → plan.handler = some handler →
      Child plan frame (.handler attempt) (.interrupt frame.key attempt)
        (handlerCall handler frame.key attempt) frame.item
  | equipment {item : String} {timeoutS : Rat} :
      frame.Calls →
      Child plan frame .equipment (.equipment frame.key) (equipCall frame.key item timeoutS)
        frame.item

/-- A frame that enters a child in this phase stands at it already, or
starts with it. -/
def Follows (store : Store) (frame : Frame) : Phase → Prop
  | .steps i => frame.phase = .steps i ∨ i = 0
  | .items i => frame.phase = .items i ∨ i = 0
  | .option id => (store.object frame.ref).choiceId = some id
  | _ => True

/-- The items an adaptive batch still offers in this phase: those of the phase
before, or all. -/
def Offers (frame : Frame) : Phase → Prop
  | .adaptive remaining => frame.phase = .adaptive remaining ∨
      ∃ head items body, frame.node = .batch head true items body ∧ remaining = items
  | _ => True

/-- The next child of a sequence or of a batch. -/
inductive Advance : Phase → Phase → Prop where
  | steps (i : Nat) : Advance (.steps i) (.steps (i + 1))
  | items (i : Nat) : Advance (.items i) (.items (i + 1))

/-- Why a node that is no call is done. -/
inductive Finished (s : State) (frame : Frame) : Prop where
  | wait {head : NodeHead} {condition : Json} : frame.node = .wait head condition →
      Finished s frame
  | sequence {head : NodeHead} {steps : List WorkNode} (i : Nat) :
      frame.node = .sequence head steps → steps.length ≤ i →
      frame.phase = .steps i ∨ i = 0 → Finished s frame
  | batch {head : NodeHead} {items : List Json} {body : WorkNode} (i : Nat) :
      frame.node = .batch head false items body → items.length ≤ i →
      frame.phase = .items i ∨ i = 0 → Finished s frame
  | adaptive {head : NodeHead} {items : List Json} {body : WorkNode} :
      frame.node = .batch head true items body → Finished s frame
  | option {id : String} : frame.phase = .option id → s.control = .returning .done →
      Finished s frame

/-- An attempt of the interrupt handler may begin on the way. -/
def MayInterrupt (frame : Frame) (events : List Event) : Prop :=
  events = [] ∨ ∃ attempt, events = [.interrupted (.interrupt frame.key attempt :: frame.path)]

/-- The object a frame may end: the one it holds, or the one its key has. -/
def Owns (s : State) (frame : Frame) (ref : Nat) : Prop :=
  ref = frame.ref ∨ s.store.records.get? frame.key = some ref

/-- What can become of the top frame in one step. -/
inductive Move (s : State) (frame : Frame) (rest : List Frame) : List Event → State → Prop where
  | still : Move s frame rest [] s
  | stray : s.control = .returning .done → Move s frame rest [] { s with control := .resume }
  | raises {events : List Event} {store : Store} (exc : Exc) :
      MayInterrupt frame events → Keeps frame frame.ref s.store store →
      Pending frame.ref s.store store →
      Move s frame rest events ⟨store, s.executor, frame :: rest, .raising exc⟩
  | awaits {store : Store} {results : JsonObject} {phase : Phase} :
      Keeps frame frame.ref s.store store → Pending frame.ref s.store store →
      (phase.OfCall → frame.Calls) → (phase.Begun → frame.Begun s.store) → phase.Alone →
      Offers frame phase →
      Move s frame rest []
        ⟨store, { s.executor with results }, { frame with phase } :: rest, .awaiting⟩
  | resumes {store : Store} :
      Keeps frame frame.ref s.store store → Pending frame.ref s.store store →
      Move s frame rest [] ⟨store, s.executor, { frame with phase := .body } :: rest, .resume⟩
  | dispatches {store : Store} {head : NodeHead} {tool : String}
      {arguments callState values : Json} :
      frame.node = .call head tool arguments →
      resolveRef s.executor.results frame.item callState arguments = some values →
      Keeps frame frame.ref s.store store → Pending frame.ref s.store store →
      Move s frame rest
        [.dispatched frame.path frame.baseKey frame.key tool values frame.item]
        ⟨store, s.executor, { frame with phase := .tool callState values } :: rest, .awaiting⟩
  | enters {events : List Event} {store : Store} {phase : Phase} {step : PathStep}
      {node : WorkNode} {item : Json} :
      Child s.executor.plan frame phase step node item → Follows s.store frame phase →
      MayInterrupt frame events → Keeps frame frame.ref s.store store →
      Pending frame.ref s.store store → (phase.Begun → frame.Begun s.store) →
      Move s frame rest events
        ⟨store, s.executor, { frame with phase } :: rest, .enter ⟨node, step :: frame.path, item⟩⟩
  | chooses {store : Store} {id : String} {work : WorkNode} :
      Child s.executor.plan frame (.option id) (.option id) work frame.item →
      Amends frame.baseKey frame.ref s.store store → Pending frame.ref s.store store →
      ((store.object frame.ref).Touched → (s.store.object frame.ref).Touched) →
      (∀ id', (store.object frame.ref).choiceId = some id' →
        id' = id ∨ (s.store.object frame.ref).choiceId = some id') →
      Move s frame rest [.chose frame.path id]
        ⟨store, s.executor, { frame with phase := .option id } :: rest,
          .enter ⟨work, .option id :: frame.path, frame.item⟩⟩
  | leaves {events : List Event} {ref : Nat} {store : Store} {status : NodeStatus} :
      MayInterrupt frame events → Owns s frame ref → Keeps frame ref s.store store →
      Pending ref s.store store → status ≠ .done →
      Move s frame rest events ⟨store, s.executor, rest, .returning status⟩
  | completes {ref : Nat} {store : Store} :
      Finished s frame → Owns s frame ref → Keeps frame ref s.store store →
      Move s frame rest [] ⟨store, s.executor, rest, .returning .done⟩
  | ends {store : Store} :
      InCall s frame → Keeps frame frame.ref s.store store →
      (frame.ref < s.store.objects.length → (store.object frame.ref).status = .done) →
      Move s frame rest [.ended frame.path frame.baseKey frame.key]
        ⟨store, s.executor, rest, .returning .done⟩
  | repeats {store : Store} {results : JsonObject} {history old : List String} :
      InCall s frame → Keeps frame frame.ref s.store store → Pending frame.ref s.store store →
      history = (s.executor.repeatHistory.get? frame.baseKey).getD []
        ++ [repeatKey frame.baseKey (frame.invocation + 1)] →
      (∀ key ∈ old, key ∈ history) →
      Move s frame rest
        [.repeated frame.path frame.baseKey (repeatKey frame.baseKey (frame.invocation + 1))]
        ⟨({ store with records := old.foldl Dict.pop store.records } : Store).put
            (repeatKey frame.baseKey (frame.invocation + 1))
            (NodeRecord.new (nodeSignature frame.node)),
          { s.executor with
            results
            repeatHistory := s.executor.repeatHistory.set frame.baseKey history },
          { frame with
            key := repeatKey frame.baseKey (frame.invocation + 1)
            ref := store.objects.length
            invocation := frame.invocation + 1
            phase := .body } :: rest, .resume⟩
  | handled {store : Store} {attempt : Nat} :
      frame.phase = .handler attempt → s.control = .returning .done →
      Keeps frame frame.ref s.store store → Pending frame.ref s.store store →
      Move s frame rest [.handled (.interrupt frame.key attempt :: frame.path)]
        ⟨store, s.executor, { frame with phase := .handlerState } :: rest, .awaiting⟩
  | advances {store : Store} {phase : Phase} :
      Advance frame.phase phase → s.control = .returning .done →
      Keeps frame frame.ref s.store store → Pending frame.ref s.store store →
      Move s frame rest [] ⟨store, s.executor, { frame with phase } :: rest, .resume⟩

/-- The outcome is such a move. -/
def Moves (s : State) (frame : Frame) (rest : List Frame) (outcome : Outcome) : Prop :=
  Move s frame rest outcome.1 outcome.2

/-! ## Calls -/

section

variable {questions : Questions} {s₀ s : State} {frame : Frame} {rest : List Frame} {now : Rat}
variable {f : NodeRecord → NodeRecord}

theorem Working.leaves {status : NodeStatus} (w : Working s₀ frame rest s) (hf : Mild f)
    (ht : (∀ r, (f r).Touched → r.Touched) ∨ frame.Begun s₀.store) (hs : status ≠ .done) : Moves s₀ frame rest ([], s.leave frame rest f status) := by
  rw [w.leave_eq]
  exact .leaves (.inl rfl) (.inl rfl) (w.keeps.modify hf ht) (w.pending.modify hf) hs

theorem Working.blocks (w : Working s₀ frame rest s) (reason : String) :
    Moves s₀ frame rest ([], s.leave frame rest (NodeRecord.block reason) .blocked) :=
  w.leaves (.block reason) (.inl fun _ h => h) (by decide)

theorem Working.awaits {phase : Phase} (w : Working s₀ frame rest s) (hf : Mild f)
    (ht : (∀ r, (f r).Touched → r.Touched) ∨ frame.Begun s₀.store)
    (hc : phase.OfCall → frame.Calls) (hb : phase.Begun → frame.Begun s₀.store)
    (ha : phase.Alone) (ho : Offers frame phase) :
    Moves s₀ frame rest ([], s.goOn { frame with phase } rest f .awaiting) := by
  rw [w.goOn_eq]
  exact .awaits (w.keeps.modify hf ht) (w.pending.modify hf) hc hb ha ho

/-- A question about the call of the frame. -/
theorem Working.asks {phase : Phase} (w : Working s₀ frame rest s) (c : InCall s₀ frame)
    (hf : Mild f) (ha : phase.Alone) (ho : Offers frame phase) :
    Moves s₀ frame rest ([], s.goOn { frame with phase } rest f .awaiting) :=
  w.awaits hf (.inr c.begun) (fun _ => c.calls) (fun _ => c.begun) ha ho

/-- A repeat is counted on the way. -/
theorem Working.count (w : Working s₀ frame rest s) :
    Working s₀ frame rest { s with
      store := s.store.modify ((s.store.records.get? frame.baseKey).getD frame.ref) fun record =>
        { record with repeatCount := record.repeatCount + 1 } } where
  stack := w.stack
  executor := w.executor
  control := w.control
  keeps :=
    { toAmends := w.keeps.toAmends.trans (.count frame s.store)
      choice := Eq.trans
        (Store.object_modify_congr (p := fun r => r.choiceId) (by intro; rfl)) w.keeps.choice
      touched := fun h => w.keeps.touched
        (Store.object_modify_imp (p := NodeRecord.Touched) h fun _ h => h) }
  pending hd := w.pending
    (Store.object_modify_imp (p := fun r => r.status = .done) hd fun _ h => h)

theorem reenter_moves (w : Working s₀ frame rest s) (c : InCall s₀ frame) :
    Moves s₀ frame rest (reenter frame rest now s) := by
  have w' := w.count
  unfold reenter
  dsimp only
  split
  · exact w'.blocks _
  · rw [w.executor]
    exact .repeats c w'.keeps w'.pending rfl fun key hkey => List.mem_of_mem_take hkey

theorem handleEquipment_moves {item : String} {timeoutS : Option Rat}
    (w : Working s₀ frame rest s) (c : InCall s₀ frame) :
    Moves s₀ frame rest (handleEquipment frame rest item timeoutS now s) := by
  unfold handleEquipment
  dsimp only
  split
  · exact w.blocks _
  · rw [w.goOn_eq]
    have hf : Mild fun record : NodeRecord => { record with
        interruption := some (.equipment item (some (timeoutS.getD (callDeadline frame s - now)))) } :=
      ⟨fun _ => rfl, fun _ => rfl, fun _ h => h⟩
    exact .enters (.equipment c.calls) trivial (.inl rfl) (w.keeps.modify hf (.inr c.begun))
      (w.pending.modify hf) fun _ => c.begun

/-- Handling an interrupt, with the events before it. -/
theorem handleInterrupt_move {attempt : Nat} {handled : Bool} {events : List Event}
    (w : Working s₀ frame rest s) (c : InCall s₀ frame) (he : MayInterrupt frame events)
    (hnil : handled → events = []) :
    Move s₀ frame rest events (handleInterrupt frame rest attempt handled now s).2 := by
  unfold handleInterrupt
  split
  · have := w.stack
    obtain ⟨store, executor, stack, control⟩ := s
    obtain rfl := w.executor
    obtain rfl := this
    exact .raises _ he w.keeps w.pending
  · next handler hh =>
      rw [w.executor] at hh
      split
      · rw [w.leave_eq]
        exact .leaves he (.inl rfl) (w.keeps.modify (.block _) (.inr c.begun))
          (w.pending.modify (.block _)) (by decide)
      · split
        · next hd =>
            rw [hnil hd]
            exact w.asks c .id trivial trivial
        · rw [w.goOn_eq]
          exact .enters (.handler c.calls hh) trivial he (w.keeps.modify .id (.inr c.begun))
            (w.pending.modify .id) fun _ => c.begun

theorem handleInterrupt_moves {attempt : Nat} {handled : Bool} (w : Working s₀ frame rest s)
    (c : InCall s₀ frame) : Moves s₀ frame rest (handleInterrupt frame rest attempt handled now s) := by
  have hnil : (handleInterrupt frame rest attempt handled now s).1 = [] := by
    unfold handleInterrupt
    repeat' split
    all_goals rfl
  rw [Moves, hnil]
  exact handleInterrupt_move w c (.inl rfl) fun _ => rfl

theorem beginAttempt_moves {attempt : Nat} (w : Working s₀ frame rest s) (c : InCall s₀ frame) :
    Moves s₀ frame rest (beginAttempt frame rest attempt now s) := by
  have w' := w.goOn
    (f := fun record => { record with interruption := some (.handler attempt false) })
    ⟨fun _ => rfl, fun _ => rfl, fun _ h => h⟩ (.inr c.begun)
  exact handleInterrupt_move w' c (.inr ⟨attempt, rfl⟩) fun h => by cases h

theorem applyCallChoice_moves {choice reason : String} (w : Working s₀ frame rest s)
    (c : InCall s₀ frame) :
    Moves s₀ frame rest (applyCallChoice frame rest choice reason now s) := by
  have ends : Moves s₀ frame rest ([.ended frame.path frame.baseKey frame.key],
      s.leave frame rest
        (fun record => { record with decisionPending := false, status := .done }) .done) := by
    rw [w.leave_eq]
    refine .ends c ⟨w.keeps.toAmends.trans (.modify _ _ _ fun _ => rfl), ?_, fun _ => .inr c.begun⟩
      fun hlt => ?_
    · exact Eq.trans (Store.object_modify_congr (p := fun r => r.choiceId) (by intro; rfl))
        w.keeps.choice
    · rw [← w.keeps.length] at hlt
      rw [Store.object_modify_self hlt]
  unfold applyCallChoice
  split
  · exact ends
  · exact ends
  · exact w.leaves ⟨fun _ => rfl, fun _ => rfl, fun _ h => by simp [NodeRecord.block] at h⟩
      (.inr c.begun) (by decide)
  · exact reenter_moves (w.goOn ⟨fun _ => rfl, fun _ => rfl, fun _ h => by simp at h⟩
      (.inr c.begun)) c
  · exact w.leaves ⟨fun _ => rfl, fun _ => rfl, fun _ h => by simp at h⟩ (.inr c.begun) (by decide)

theorem decisionUnknown_moves (w : Working s₀ frame rest s) (c : InCall s₀ frame) :
    Moves s₀ frame rest (decisionUnknown frame rest s) := by
  unfold decisionUnknown
  exact w.leaves ⟨fun _ => rfl, fun _ => rfl, fun _ h => by simp at h⟩ (.inr c.begun) (by decide)

theorem takeCallChoice_moves {choice : String} (w : Working s₀ frame rest s) (c : InCall s₀ frame) :
    Moves s₀ frame rest (takeCallChoice questions frame rest choice now s) := by
  have w' := w.goOn (f := fun record => { record with unknownStreak := 0 })
    ⟨fun _ => rfl, fun _ => rfl, fun _ h => h⟩ (.inr c.begun)
  unfold takeCallChoice
  dsimp only
  split
  · exact handleEquipment_moves
      (w'.goOn ⟨fun _ => rfl, fun _ => rfl, fun _ h => h⟩ (.inr c.begun)) c
  · exact applyCallChoice_moves w' c

theorem judgeChoice_moves {choice : String} (w : Working s₀ frame rest s) (c : InCall s₀ frame) :
    Moves s₀ frame rest (judgeChoice questions frame rest choice now s) := by
  unfold judgeChoice
  split
  · exact decisionUnknown_moves
      (w.goOn ⟨fun _ => rfl, fun _ => rfl, fun _ h => h⟩ (.inr c.begun)) c
  · exact takeCallChoice_moves w c

theorem decisionChoice_moves {choice : String} (w : Working s₀ frame rest s)
    (c : InCall s₀ frame) :
    Moves s₀ frame rest (decisionChoice questions frame rest choice now s) := by
  have w' := w.goOn (f := fun record => { record with unknownStreak := record.unknownStreak + 1 })
    ⟨fun _ => rfl, fun _ => rfl, fun _ h => h⟩ (.inr c.begun)
  unfold decisionChoice
  dsimp only
  split
  · exact w.asks c ⟨fun _ => rfl, fun _ => rfl, fun _ h => h⟩ trivial trivial
  · split
    · split
      · exact applyCallChoice_moves w' c
      · exact decisionUnknown_moves w' c
    · exact takeCallChoice_moves w c

theorem decideCall_moves (w : Working s₀ frame rest s) (c : InCall s₀ frame) :
    Moves s₀ frame rest (decideCall questions frame rest now s) := by
  unfold decideCall
  split
  · exact w.asks c .id trivial trivial
  · split
    · exact decisionChoice_moves w c
    · exact w.asks c .id trivial trivial

theorem callRound_moves (hs : s.stack = frame :: rest) (hc : frame.node.isCall) :
    Moves s frame rest (callRound questions frame rest now s) := by
  have w := Working.refl hs
  unfold callRound
  dsimp only
  split
  · next h =>
      exact handleEquipment_moves w ⟨.inl hc, .inr (.inr (.inr (by rw [h]; rfl)))⟩
  · next h =>
      exact handleInterrupt_moves w ⟨.inl hc, .inr (.inr (.inr (by rw [h]; rfl)))⟩
  · split
    · next h => exact decideCall_moves w ⟨.inl hc, .inr (.inr (.inl h.2))⟩
    · exact w.awaits .id (.inl fun _ h => h) (fun _ => .inl hc) (fun h => h.elim) trivial trivial

theorem dispatchCall_moves (hs : s.stack = frame :: rest) {head : NodeHead} {tool : String}
    {arguments callState : Json} (hn : frame.node = .call head tool arguments) :
    Moves s frame rest (dispatchCall frame rest tool arguments callState s) := by
  have w := Working.refl hs
  unfold dispatchCall
  split
  · obtain ⟨store, executor, stack, control⟩ := s
    obtain rfl := hs
    exact .raises _ (.inl rfl) (.refl ..) id
  · next values hvalues =>
    exact .dispatches hn hvalues (w.keeps.modify .id (.inl fun _ h => h)) (w.pending.modify .id)

theorem takeResult_moves (hs : s.stack = frame :: rest) (hp : frame.phase.Begun) {tool : String}
    {callState arguments : Json} {result : JsonObject} :
    Moves s frame rest (takeResult frame rest tool callState arguments result s) := by
  have w := Working.refl hs
  have hf : Mild fun record : NodeRecord => { record with
      result := some (publicResult result)
      delivered := (deliveredMark tool result).or record.delivered } :=
    ⟨fun _ => rfl, fun _ => rfl, fun _ h => h⟩
  exact .awaits (w.keeps.modify hf (.inr (.inr (.inl hp)))) (w.pending.modify hf)
    (fun _ => .inr hp.ofCall) (fun _ => .inr (.inl hp)) trivial trivial

theorem settleResult_moves (hs : s.stack = frame :: rest) (hp : frame.phase.Begun)
    {callState arguments decisionState : Json} {result : JsonObject} :
    Moves s frame rest
      (settleResult questions frame rest callState arguments decisionState result now s) := by
  have c : InCall s frame := .of_phase hp
  have w := (Working.refl hs).goOn (f := fun record => { record with
      decisionFacts := some ⟨publicResult result, arguments, decisionState, callState⟩ })
    ⟨fun _ => rfl, fun _ => rfl, fun _ h => h⟩ (.inr c.begun)
  unfold settleResult
  dsimp only
  split
  · exact beginAttempt_moves w c
  · exact reenter_moves (w.goOn ⟨fun _ => rfl, fun _ => rfl, fun _ h => by simp at h⟩
      (.inr c.begun)) c
  · exact applyCallChoice_moves w c
  · exact applyCallChoice_moves w c
  · exact applyCallChoice_moves w c
  · exact decideCall_moves w c

theorem handlerResult_moves (hs : s.stack = frame :: rest) (hp : frame.phase.Begun)
    {choice : String} : Moves s frame rest (handlerResult frame rest choice now s) := by
  have c : InCall s frame := .of_phase hp
  have w := Working.refl hs
  unfold handlerResult
  split
  · exact reenter_moves (w.goOn ⟨fun _ => rfl, fun _ => rfl, fun _ h => by simp at h⟩
      (.inr c.begun)) c
  · exact beginAttempt_moves w c
  · exact w.blocks _
  · exact w.leaves (.setStatus (by decide)) (.inl fun _ h => h) (by decide)

/-! ## The other nodes -/

theorem finishNode_moves (hs : s.stack = frame :: rest) (h : Finished s frame) :
    Moves s frame rest (finishNode frame rest s) := by
  have w := Working.refl hs
  refine .completes h (.inl rfl) ⟨w.keeps.toAmends.trans (.modify _ _ _ fun _ => rfl), ?_, ?_⟩
  · exact Store.object_modify_congr (p := fun r => r.choiceId) fun _ => rfl
  · exact fun ht => .inl (Store.object_modify_imp (p := NodeRecord.Touched) ht fun _ h => h)

theorem enterChild_moves {phase : Phase} {step : PathStep} {node : WorkNode} {item : Json}
    (h : Child s.executor.plan frame phase step node item) (hf : Follows s.store frame phase)
    (hb : ¬ phase.Begun) : Moves s frame rest (enterChild frame rest phase node step item s) :=
  .enters h hf (.inl rfl) (.refl ..) id fun h => absurd h hb

/-- What is done with the record its key has. -/
theorem atRecord_moves {next : Nat → Outcome} (hs : s.stack = frame :: rest)
    (h : ∀ ref, s.store.records.get? frame.key = some ref → Moves s frame rest (next ref)) :
    Moves s frame rest (atRecord frame s next) := by
  unfold atRecord
  split
  · next ref href => exact h ref href
  · obtain ⟨store, executor, stack, control⟩ := s
    obtain rfl := hs
    exact .raises _ (.inl rfl) (.refl ..) id

theorem leaveAt_moves {ref : Nat} {status : NodeStatus} (h : Owns s frame ref) (hf : Mild f)
    (ht : ∀ r, (f r).Touched → r.Touched) (hs : status ≠ .done) :
    Moves s frame rest ([], s.leave { frame with ref } rest f status) :=
  .leaves (.inl rfl) h ((Keeps.refl frame ref s.store).modify hf (.inl ht))
    (Pending.modify id hf) hs

theorem completeAt_moves {ref : Nat} (hf : Finished s frame) (h : Owns s frame ref) :
    Moves s frame rest ([], s.leave { frame with ref } rest (NodeRecord.setStatus .done) .done) :=
  .completes hf h ⟨.modify _ _ _ fun _ => rfl,
    Store.object_modify_congr (p := fun r => r.choiceId) fun _ => rfl,
    fun ht => .inl (Store.object_modify_imp (p := NodeRecord.Touched) ht fun _ h => h)⟩

theorem resumeFrame_moves (hs : s.stack = frame :: rest) :
    Moves s frame rest (resumeFrame questions frame rest now s) := by
  have w := Working.refl hs
  unfold resumeFrame
  split
  · next hn => exact callRound_moves hs (by rw [hn]; rfl)
  · next head steps hn =>
      dsimp only
      split
      · next child hchild =>
          refine enterChild_moves (.step hn hchild) ?_ id
          show frame.phase = .steps _ ∨ _ = 0
          cases frame.phase <;> simp
      · next hnone =>
          refine finishNode_moves hs (.sequence _ hn (List.getElem?_eq_none_iff.mp hnone) ?_)
          cases frame.phase <;> simp
  · next head items body hn =>
      dsimp only
      split
      · next value hvalue =>
          refine enterChild_moves (.item hn hvalue) ?_ id
          show frame.phase = .items _ ∨ _ = 0
          cases frame.phase <;> simp
      · next hnone =>
          refine finishNode_moves hs (.batch _ hn (List.getElem?_eq_none_iff.mp hnone) ?_)
          cases frame.phase <;> simp
  · next head items body hn =>
      dsimp only
      split
      · exact atRecord_moves hs fun ref href => completeAt_moves (.adaptive hn) (.inr href)
      · refine w.awaits .id (.inl fun _ h => h) False.elim False.elim trivial ?_
        split
        · next hp => exact .inl hp
        · exact .inr ⟨head, items, body, hn, rfl⟩
  · next head fromRuntime options hn =>
      split
      · next id hid =>
          split
          · next id' work hfind => exact enterChild_moves (.option hn hfind) hid False.elim
          · exact w.blocks _
      · split
        · exact w.leaves (.setStatus (by decide)) (.inl fun _ h => h) (by decide)
        · exact w.awaits .id (.inl fun _ h => h) False.elim False.elim trivial trivial
  · next head condition hn =>
      refine atRecord_moves hs fun ref href => ?_
      dsimp only
      split
      · exact leaveAt_moves (.inr href) (.block _) (fun _ h => h) (by decide)
      · exact w.awaits .id (.inl fun _ h => h) False.elim False.elim trivial trivial

theorem takeCondition_moves {answers : List String} (hs : s.stack = frame :: rest) :
    Moves s frame rest (takeCondition frame rest answers now s) := by
  have w := Working.refl hs
  unfold takeCondition
  dsimp only
  split
  · exact .resumes (w.keeps.modify .id (.inl fun _ h => h)) (w.pending.modify .id)
  · split
    · exact w.blocks _
    · split
      · exact w.blocks _
      · split
        · exact w.leaves ⟨fun _ => rfl, fun _ => rfl, fun _ h => by simp at h⟩
            (.inl fun _ h => h) (by decide)
        · exact w.blocks _

theorem takeWait_moves {answers : List String} {head : NodeHead} {condition : Json}
    (hs : s.stack = frame :: rest) (hn : frame.node = .wait head condition) :
    Moves s frame rest (takeWait frame rest condition answers s) := by
  refine atRecord_moves hs fun ref href => ?_
  split
  · exact completeAt_moves (.wait hn) (.inr href)
  · exact leaveAt_moves (.inr href) (.setStatus (by decide)) (fun _ h => h) (by decide)

theorem takeOption_moves {choice : String} {head : NodeHead} {fromRuntime : Bool}
    {options : List (String × WorkNode)} (hs : s.stack = frame :: rest)
    (hn : frame.node = .choice head fromRuntime options) :
    Moves s frame rest (takeOption frame rest options choice s) := by
  have w := Working.refl hs
  unfold takeOption
  split
  · exact w.leaves (.setStatus (by decide)) (.inl fun _ h => h) (by decide)
  · next id work hfind =>
      obtain rfl : id = choice := by simpa using List.find?_some hfind
      refine .chooses (.option hn hfind) (.modify _ _ _ fun _ => rfl) ?_ ?_ ?_
      · exact fun h => Store.object_modify_imp (p := fun r => r.status = .done) h fun _ h => h
      · exact fun h => Store.object_modify_imp (p := NodeRecord.Touched) h fun _ h => h
      · intro id' h
        rcases Store.object_modify_or s.store frame.ref frame.ref
          (fun record => { record with choiceId := some id }) with he | ⟨-, he⟩
        · exact .inr (he ▸ h)
        · exact .inl (Option.some.inj ((congrArg NodeRecord.choiceId he).symm.trans h)).symm

/-- What is popped was there, and what is left. -/
theorem popAt_mem {remaining rest : List Json} {index : Int} {value : Json}
    (h : popAt remaining index = some (value, rest)) : value ∈ remaining ∧ rest ⊆ remaining := by
  unfold popAt at h
  dsimp only at h
  generalize (if index < 0 then index + remaining.length else index) = i at h
  split at h
  · cases h
  · obtain ⟨value', hget, heq⟩ := Option.map_eq_some_iff.mp h
    cases heq
    exact ⟨List.mem_of_getElem? hget, List.eraseIdx_subset⟩

theorem takeItem_moves {choice : String} {head : NodeHead} {items remaining : List Json}
    {body : WorkNode} (hs : s.stack = frame :: rest)
    (hn : frame.node = .batch head true items body) (hp : frame.phase = .adaptive remaining) :
    Moves s frame rest (takeItem frame rest items remaining body choice s) := by
  unfold takeItem
  split
  · exact atRecord_moves hs fun ref href =>
      leaveAt_moves (.inr href) (.block _) (fun _ h => h) (by decide)
  · next value remaining' hpop =>
      obtain ⟨index, -, hpop⟩ := Option.bind_eq_some_iff.mp hpop
      obtain ⟨hvalue, hrest⟩ := popAt_mem hpop
      exact enterChild_moves (.adaptive hn hp hvalue hrest) trivial id

/-! ## Returning, replies -/

theorem returnTo_moves {status : NodeStatus} (hs : s.stack = frame :: rest)
    (hc : s.control = .returning status) :
    Moves s frame rest (returnTo frame rest status now s) := by
  have w := Working.refl hs
  unfold returnTo
  split
  · next attempt hp =>
      split
      · next hd =>
          subst hd
          have c : InCall s frame := .of_phase (by rw [hp]; trivial)
          exact .handled hp hc (w.keeps.modify ⟨fun _ => rfl, fun _ => rfl, fun _ h => h⟩
            (.inr c.begun)) (w.pending.modify ⟨fun _ => rfl, fun _ => rfl, fun _ h => h⟩)
      · next hd =>
          split
          · exact w.blocks _
          · exact w.leaves (.setStatus hd) (.inl fun _ h => h) hd
  · next hp =>
      have c : InCall s frame := .of_phase (by rw [hp]; trivial)
      split
      · exact reenter_moves (w.goOn ⟨fun _ => rfl, fun _ => rfl, fun _ h => by simp at h⟩
          (.inr c.begun)) c
      · next hd =>
          split
          · exact w.blocks _
          · exact w.leaves (.setStatus hd) (.inl fun _ h => h) hd
  · next id hp =>
      split
      · next hd => exact finishNode_moves hs (.option hp (hd ▸ hc))
      · next hd => exact w.leaves .id (.inl fun _ h => h) hd
  · next next hp =>
      split
      · next hd =>
          exact .advances (hp ▸ .steps next) (hd ▸ hc) (w.keeps.modify .id (.inl fun _ h => h))
            (w.pending.modify .id)
      · next hd => exact w.leaves .id (.inl fun _ h => h) hd
  · next next hp =>
      split
      · next hd =>
          exact .advances (hp ▸ .items next) (hd ▸ hc) (w.keeps.modify .id (.inl fun _ h => h))
            (w.pending.modify .id)
      · next hd => exact w.leaves .id (.inl fun _ h => h) hd
  · split
    · next hd => exact .stray (hd ▸ hc)
    · next hd => exact w.leaves .id (.inl fun _ h => h) hd

theorem raise_moves (hs : s.stack = frame :: rest) (exc : Exc) :
    Moves s frame rest ([], { s with control := .raising exc }) := by
  obtain ⟨store, executor, stack, control⟩ := s
  obtain rfl := hs
  exact .raises exc (.inl rfl) (.refl ..) id

theorem takeReply_moves {reply : Reply} (hs : s.stack = frame :: rest) :
    Moves s frame rest (takeReply questions frame rest reply now s) := by
  have w := Working.refl hs
  unfold takeReply
  dsimp only
  split
  · exact takeCondition_moves hs
  · exact raise_moves hs _
  · split
    · next hn => exact dispatchCall_moves hs hn
    · exact .still
  · exact raise_moves hs _
  · next hp =>
      split
      · exact takeResult_moves hs (by rw [hp]; trivial)
      · exact .still
  · exact raise_moves hs _
  · next hp => exact settleResult_moves hs (by rw [hp]; trivial)
  · exact raise_moves hs _
  · next hp => exact settleResult_moves hs (by rw [hp]; trivial)
  · next hp => exact judgeChoice_moves w (.of_phase (by rw [hp]; trivial))
  · exact raise_moves hs _
  · next hp => exact judgeChoice_moves w (.of_phase (by rw [hp]; trivial))
  · next hp => exact decisionChoice_moves w (.of_phase (by rw [hp]; trivial))
  · exact raise_moves hs _
  · next hp => exact decisionChoice_moves w (.of_phase (by rw [hp]; trivial))
  · exact raise_moves hs _
  · next hp => exact decideCall_moves w (.of_phase (by rw [hp]; trivial))
  · next hp => exact w.asks (.of_phase (by rw [hp]; trivial)) .id trivial trivial
  · exact raise_moves hs _
  · next hp => exact handlerResult_moves hs (by rw [hp]; trivial)
  · exact raise_moves hs _
  · next hp => exact handlerResult_moves hs (by rw [hp]; trivial)
  · split
    · next hn => exact takeOption_moves hs hn
    · exact .still
  · exact raise_moves hs _
  · next hp =>
      split
      · next hn => exact takeItem_moves hs hn hp
      · exact .still
  · exact raise_moves hs _
  · split
    · next hn => exact takeWait_moves hs hn
    · exact .still
  · exact raise_moves hs _
  · exact .still

end

/-! ## Steps -/

/-- What may be the key a node is looked up under: its id, or a key of its
signature. -/
def BaseKey (questions : Questions) (node : WorkNode) (key : String) : Prop :=
  node.head.id = some key ∧ key ≠ "" ∨
  (node.head.id = none ∨ node.head.id = some "") ∧
    ∃ occurrence, key = legacyNodeKey questions.digest (nodeSignature node) occurrence

/-- A node is looked up under a key. -/
structure Entry (questions : Questions) (s : State) (d : Dispatch) (key : String)
    (executor : Executor) : Prop where
  control : s.control = .enter d
  key : BaseKey questions d.node key
  plan : executor.plan = s.executor.plan
  history : executor.repeatHistory = s.executor.repeatHistory

/-- The first phase of a frame, and what is done in it. -/
inductive Opening : Phase → Control → Prop where
  | condition : Opening .condition .awaiting
  | body : Opening .body .resume

/-- What a step can do. -/
inductive Effect (questions : Questions) (s : State) (input : Input) :
    List Event → State → Prop where
  | still : Effect questions s input [] s
  | construct {plan : WorkPlan} {judged : Bool} {executor : Executor} :
      s.control = .idle → input.reply = .construct plan judged → executor.plan = plan →
      Effect questions s input [] { s with executor }
  | start :
      s.control = .idle → input.reply = .run →
      Effect questions s input [] { s with
        executor := { s.executor with legacyOccurrences := [], repeatHistory := [] }
        stack := []
        control := .enter ⟨s.executor.plan.work, [], .null⟩ }
  | found {d : Dispatch} {key : String} {executor : Executor} {ref : Nat} :
      Entry questions s d key executor → s.store.records.get? key = some ref →
      (s.store.object ref).signature = some (nodeSignature d.node) →
      (s.store.object ref).status = .done →
      Effect questions s input [.entered d.path key (nodeSignature d.node)]
        ⟨s.store, executor, s.stack, .returning .done⟩
  | refuses {d : Dispatch} {key : String} {executor : Executor} {ref : Nat} :
      Entry questions s d key executor → s.store.records.get? key = some ref →
      (s.store.object ref).signature ≠ some (nodeSignature d.node) →
      (s.store.object ref).status = .done → d.node.isCall →
      (s.store.object ref).delivered.isSome →
      Effect questions s input [.entered d.path key (nodeSignature d.node)]
        ⟨s.store.put key (NodeRecord.changed (nodeSignature d.node) (s.store.object ref)),
          executor, s.stack, .returning .blocked⟩
  | opens {d : Dispatch} {key : String} {executor : Executor} {ref : Nat} {store : Store}
      {phase : Phase} {control : Control} :
      Entry questions s d key executor → s.store.records.get? key = some ref →
      (s.store.object ref).signature = some (nodeSignature d.node) →
      (s.store.object ref).status ≠ .done →
      (∀ frame : Frame, Keeps frame ref s.store store) → (store.object ref).status ≠ .done →
      Opening phase control →
      Effect questions s input [.entered d.path key (nodeSignature d.node)]
        ⟨store, executor, ⟨d.node, d.path, d.item, key, key, ref, 0, phase⟩ :: s.stack, control⟩
  | makes {d : Dispatch} {key : String} {executor : Executor} {store : Store}
      {phase : Phase} {control : Control} :
      Entry questions s d key executor →
      (∀ ref, s.store.records.get? key = some ref →
        (s.store.object ref).signature ≠ some (nodeSignature d.node) ∧
        ¬ ((s.store.object ref).status = .done ∧ d.node.isCall ∧
          (s.store.object ref).delivered.isSome)) →
      (∀ frame : Frame, Keeps frame s.store.objects.length
        (s.store.put key (NodeRecord.new (nodeSignature d.node))) store) →
      (store.object s.store.objects.length).status ≠ .done → Opening phase control →
      Effect questions s input [.entered d.path key (nodeSignature d.node)]
        ⟨store, executor,
          ⟨d.node, d.path, d.item, key, key, s.store.objects.length, 0, phase⟩ :: s.stack, control⟩
  | moves {frame : Frame} {rest : List Frame} {events : List Event} {s' : State} :
      s.stack = frame :: rest → Move s frame rest events s' → Effect questions s input events s'
  | finishes {status : NodeStatus} :
      s.stack = [] → s.control = .returning status →
      Effect questions s input [.finished status] { s with control := .idle }
  | fails {event : Event} {exc : Exc} :
      s.stack = [] → s.control = .raising exc →
      event = .raised ∨ event = .finished .blocked ∨ event = .finished .cancelled →
      Effect questions s input [event] { s with control := .idle }
  | unwinds {frame : Frame} {rest : List Frame} {exc : Exc} :
      s.stack = frame :: rest → s.control = .raising exc →
      Effect questions s input [] { s with stack := rest }
  | cuts {upper rest : List Frame} {frame : Frame} {store : Store} :
      s.stack = upper ++ frame :: rest → Keeps frame frame.ref s.store store →
      Pending frame.ref s.store store →
      Effect questions s input [] ⟨store, s.executor, rest, .returning .blocked⟩

section

variable {questions : Questions}

theorem nodeKey_entry {s : State} {d : Dispatch} (h : s.control = .enter d) :
    Entry questions s d (nodeKey questions d.node s.executor).1
      (nodeKey questions d.node s.executor).2 := by
  unfold nodeKey
  split
  · next id hid =>
      split
      · next hne => exact ⟨h, .inl ⟨hid, hne⟩, rfl, rfl⟩
      · next hne =>
          exact ⟨h, .inr ⟨.inr (by rw [hid, Decidable.not_not.mp hne]), _, rfl⟩, rfl, rfl⟩
  · next hid => exact ⟨h, .inr ⟨.inl hid, _, rfl⟩, rfl, rfl⟩

/-- The record of an entered node becomes active. -/
theorem activate (store : Store) (ref : Nat) (now : Rat) (h : (store.object ref).status ≠ .done) :
    (∀ frame : Frame, Keeps frame ref store (store.modify ref fun record =>
      { record with status := .active, startedAt := record.startedAt.or (some now) })) ∧
    ((store.modify ref fun record =>
      { record with status := .active, startedAt := record.startedAt.or (some now) }).object
        ref).status ≠ .done := by
  refine ⟨fun frame => (Keeps.refl frame ref store).modify
    ⟨fun _ => rfl, fun _ => rfl, fun _ hd => by simp at hd⟩ (.inl fun _ h => h), fun hd => h ?_⟩
  exact Store.object_modify_imp (p := fun r => r.status = .done) hd fun _ hd => by simp at hd

theorem openFrame_effect (d : Dispatch) (key : String) (ref : Nat) (now : Rat) (s : State) :
    ∃ phase control, Opening phase control ∧ openFrame d key ref now s =
      ⟨s.store.modify ref fun record =>
          { record with status := .active, startedAt := record.startedAt.or (some now) },
        s.executor, ⟨d.node, d.path, d.item, key, key, ref, 0, phase⟩ :: s.stack, control⟩ := by
  unfold openFrame
  by_cases hw : d.node.head.when.isSome
  · exact ⟨.condition, .awaiting, .condition, by simp [hw, State.goOn]⟩
  · exact ⟨.body, .resume, .body, by simp [hw, State.goOn]⟩

theorem enterNode_effect {s : State} {d : Dispatch} {now : Rat} {input : Input}
    (h : s.control = .enter d) :
    Effect questions s input (enterNode questions d now s).1 (enterNode questions d now s).2 := by
  have entry : Entry questions s d _ _ := nodeKey_entry h
  rcases hkey : nodeKey questions d.node s.executor with ⟨key, executor⟩
  rw [hkey] at entry
  have fresh (hno : ∀ ref, s.store.records.get? key = some ref →
        (s.store.object ref).signature ≠ some (nodeSignature d.node) ∧
        ¬ ((s.store.object ref).status = .done ∧ d.node.isCall ∧
          (s.store.object ref).delivered.isSome)) :
      Effect questions s input [.entered d.path key (nodeSignature d.node)]
        (openFrame d key s.store.objects.length now
          { s with executor, store := s.store.put key (NodeRecord.new (nodeSignature d.node)) }) := by
    obtain ⟨phase, control, hopen, heq⟩ := openFrame_effect d key s.store.objects.length now
      { s with executor, store := s.store.put key (NodeRecord.new (nodeSignature d.node)) }
    have hact := activate (s.store.put key (NodeRecord.new (nodeSignature d.node)))
      s.store.objects.length now (by simp [NodeRecord.new])
    rw [heq]
    exact .makes entry hno hact.1 hact.2 hopen
  unfold enterNode
  simp only [hkey]
  split
  · next hnone => exact fresh fun ref href => by simp [hnone] at href
  · next ref href =>
      split
      · next hsig =>
          split
          · next hd => exact .refuses entry href hsig hd.1 hd.2.1 hd.2.2
          · next hd =>
              refine fresh fun ref' href' => ?_
              obtain rfl := Option.some.inj (href.symm.trans href')
              exact ⟨hsig, hd⟩
      · next hsig =>
          split
          · next hd =>
              exact .found ⟨entry.control, entry.key, entry.plan, entry.history⟩ href
                (Decidable.not_not.mp hsig) hd
          · next hd =>
              obtain ⟨phase, control, hopen, heq⟩ := openFrame_effect d key ref now
                { s with executor }
              have hact := activate s.store ref now hd
              rw [heq]
              exact .opens entry href (Decidable.not_not.mp hsig) hd hact.1 hact.2 hopen

theorem unwind_effect {s : State} {exc : Exc} {input : Input} (h : s.control = .raising exc) :
    Effect questions s input (unwind exc s).1 (unwind exc s).2 := by
  unfold unwind
  split
  · next hs =>
      split
      · exact .fails hs h (.inr (.inl rfl))
      · next requested => cases requested <;> exact .fails hs h (by simp)
      · exact .fails hs h (.inl rfl)
  · next frame rest hs =>
      split
      · exact .moves hs ((Working.refl hs).blocks _)
      · exact .unwinds hs h

theorem expire_effect {s : State} {depth : Nat} {input : Input} :
    Effect questions s input (expire depth s).1 (expire depth s).2 := by
  unfold expire
  split
  · next frame rest hdrop =>
      split
      · have hs : s.stack = s.stack.take depth ++ frame :: rest := by
          rw [← hdrop, List.take_append_drop]
        exact .cuts hs ((Keeps.refl ..).modify (.block _) (.inl fun _ h => h))
          (Pending.modify id (.block _))
      · exact .still
  · exact .still

/-- A step has one of these effects. -/
theorem step_effect (s : State) (input : Input) :
    Effect questions s input (step questions s input).1 (step questions s input).2 := by
  unfold step
  split
  · next hc hr => exact .construct hc hr rfl
  · next hc hr => exact .start hc hr
  · next hc hr => exact enterNode_effect hc
  · next status hc hr =>
      split
      · next hs => exact .finishes hs hc
      · next frame rest hs => exact .moves hs (returnTo_moves hs hc)
  · split
    · exact .still
    · next frame rest hs => exact .moves hs (resumeFrame_moves hs)
  · next exc hc hr => exact unwind_effect hc
  · exact expire_effect
  · split
    · exact .still
    · next frame rest hs => exact .moves hs (takeReply_moves hs)
  · exact .still

end

end WorkRuntime

end MineBot
