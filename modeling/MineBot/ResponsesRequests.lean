import Mathlib
import MineBot.ResponsesHistory

/-!
# The requests of a connection

Every party of the kernel may step in between two awaits of `run`. What matters
for a request is the history, the calls that are known, the events that have not
been read and the stream that may still append: `Quiet` is what all steps but
`request` and `receive` do to these, and `Kept` what holds of them.

`requests_well_formed` is about every request of every run.
-/

namespace MineBot

namespace Responses

/-! ## The outputs that requests have added -/

/-- The outputs that a step's request adds to the history. -/
def addedOutputs (e : Act × Output) : List String :=
  (e.2.sent.map fun r => outputIds r.added).getD []

def givenOutputs (log : Log) : List String := log.flatMap addedOutputs

/-- The items an event brings. -/
def Event.items : Event → List ModelItem
  | .itemDone m => [m]
  | .terminal _ output => output
  | _ => []

namespace State

/-- The calls the loop has dispatched. -/
def ids (s : State) : List String := s.calls.map fun c => c.callId

/-- The calls in events that the loop has not seen. -/
def unseen (s : State) : List String := calledIds (s.unread.flatMap Event.items)

end State

/-- An item of a request as the loop collects it. -/
def Item.isInput : Item → Bool
  | .callOutput .. | .fact _ | .user _ => true
  | _ => false

/-! ## What a step leaves alone -/

/-- A step that reads events, dispatches calls, or moves the loop. -/
structure Quiet (s s' : State) : Prop where
  history : s'.history = s.history
  lastSnapshot : s'.lastSnapshot = s.lastSnapshot
  grows : ∀ callId ∈ s.ids, callId ∈ s'.ids
  nodup : s.ids.Nodup → s'.ids.Nodup
  called : ∀ callId ∈ s'.ids, callId ∈ s.ids ∨ callId ∈ s.unseen ∨ callId ∈ callIds s.history
  unseen : ∀ callId ∈ s'.unseen, callId ∈ s.unseen
  stream : ∀ stream, s'.stream = some stream → stream.live →
    ∃ stream₀, s.stream = some stream₀ ∧ stream₀.live ∧ stream₀.outputStart = stream.outputStart

section

variable {s s' s'' : State}

theorem Quiet.trans (h : Quiet s s') (h' : Quiet s' s'') : Quiet s s'' where
  history := h'.history.trans h.history
  lastSnapshot := h'.lastSnapshot.trans h.lastSnapshot
  grows callId hmem := h'.grows callId (h.grows callId hmem)
  nodup hnodup := h'.nodup (h.nodup hnodup)
  called callId hmem := by
    rcases h'.called callId hmem with hmem | hmem | hmem
    · exact h.called callId hmem
    · exact .inr (.inl (h.unseen callId hmem))
    · exact .inr (.inr (h.history ▸ hmem))
  unseen callId hmem := h.unseen callId (h'.unseen callId hmem)
  stream stream hstream hlive := by
    obtain ⟨stream', hstream', hlive', hstart'⟩ := h'.stream stream hstream hlive
    obtain ⟨stream₀, hstream₀, hlive₀, hstart₀⟩ := h.stream stream' hstream' hlive'
    exact ⟨stream₀, hstream₀, hlive₀, hstart₀.trans hstart'⟩

/-- Nothing is dispatched, and no event comes in but one that ends the stream. -/
theorem Quiet.same (hhistory : s'.history = s.history) (hlast : s'.lastSnapshot = s.lastSnapshot)
    (hcalls : s'.ids = s.ids) (hunread : ∀ e ∈ s'.unread, e ∈ s.unread ∨ e.items = [])
    (hstream : ∀ stream, s'.stream = some stream → stream.live →
      ∃ stream₀, s.stream = some stream₀ ∧ stream₀.live ∧ stream₀.outputStart = stream.outputStart) :
    Quiet s s' where
  history := hhistory
  lastSnapshot := hlast
  grows callId hmem := hcalls ▸ hmem
  nodup hnodup := hcalls ▸ hnodup
  called callId hmem := .inl (hcalls ▸ hmem)
  unseen callId hmem := by
    obtain ⟨m, hm, hid⟩ := List.mem_filterMap.mp hmem
    obtain ⟨e, he, hm⟩ := List.mem_flatMap.mp hm
    rcases hunread e he with he | hnil
    · exact List.mem_filterMap.mpr ⟨m, List.mem_flatMap.mpr ⟨e, he, hm⟩, hid⟩
    · rw [hnil] at hm
      cases hm
  stream := hstream

theorem Quiet.refl (s : State) : Quiet s s :=
  .same rfl rfl rfl (fun _ h => .inl h) fun stream h hlive => ⟨stream, h, hlive, rfl⟩

theorem unread_of_absent (h : s.reader = .absent) : s.unread = s.events := by
  rw [State.unread, h]
  rfl

theorem mem_unread {e : Event} (h : e ∈ s.events) : e ∈ s.unread :=
  List.mem_append_right _ h

theorem quiet_afterExit (s : State) : Quiet s s.afterExit :=
  .same rfl rfl rfl (fun e he => .inl (by
    rw [State.unread, State.afterExit, List.append_nil] at he
    exact List.mem_append_left _ he)) fun stream hstream => by cases hstream

theorem quiet_cleanup (s : State) : Quiet s s.cleanup := by
  unfold State.cleanup
  split
  · exact .same rfl rfl rfl (fun _ h => .inl h) fun stream h hlive => ⟨stream, h, hlive, rfl⟩
  · exact .same rfl rfl rfl (fun e he => .inl (mem_unread he)) fun stream h hlive =>
      ⟨stream, h, hlive, rfl⟩

theorem quiet_interrupt (s : State) : Quiet s s.interrupt := by
  unfold State.interrupt
  split
  · next stream hstream =>
      refine .same rfl rfl rfl (fun _ h => .inl h) fun stream' hstream' hlive => ?_
      obtain rfl := Option.some.inj hstream'
      cases hfinished : stream.finished <;> simp [Stream.live, hfinished] at hlive
  · exact (quiet_afterExit s).trans (quiet_cleanup _)

theorem quiet_place (s : State) (place : Place) : Quiet s { s with place } :=
  .same rfl rfl rfl (fun _ h => .inl h) fun stream h hlive => ⟨stream, h, hlive, rfl⟩

theorem quiet_create (s : State) (inputs : List Item) : Quiet s (s.create inputs) := by
  unfold State.create
  split
  · exact quiet_interrupt s
  · exact quiet_place s _

theorem quiet_queued (s : State) (queued : List String) : Quiet s { s with queued } :=
  .same rfl rfl rfl (fun _ h => .inl h) fun stream h hlive => ⟨stream, h, hlive, rfl⟩

theorem quiet_loopTop (s : State) (needsWork : Bool) : Quiet s (s.loopTop needsWork).1 := by
  unfold State.loopTop
  split
  · exact quiet_place s _
  · split
    · exact quiet_create s _
    · split
      · split
        · exact (quiet_queued s _).trans (quiet_create _ _)
        · exact quiet_cleanup s
      · exact quiet_place s _

theorem quiet_readMessage (s : State) : Quiet s s.readMessage := by
  unfold State.readMessage
  split
  · exact .same rfl rfl rfl (fun _ h => .inl h) fun stream h hlive => ⟨stream, h, hlive, rfl⟩
  · exact .refl s

theorem quiet_proceed (s : State) : Quiet s s.proceed := by
  unfold State.proceed
  split
  · exact (quiet_afterExit s).trans (quiet_cleanup _)
  · exact .same rfl rfl rfl (fun _ h => .inl h) fun stream h hlive => ⟨stream, h, hlive, rfl⟩
  · exact quiet_place s _
  · exact quiet_place s _
  · exact .refl s

theorem quiet_cancel (s : State) : Quiet s s.cancel := by
  unfold State.cancel
  split
  · exact .refl s
  · exact quiet_interrupt s
  · exact quiet_interrupt s
  · exact quiet_interrupt s
  · exact quiet_interrupt s
  · exact quiet_cleanup s
  · exact .same rfl rfl rfl (fun _ h => .inl h) fun stream h hlive => ⟨stream, h, hlive, rfl⟩
  · exact quiet_place s _
  · exact quiet_place s _

/-! ## Observing items -/

/-- The calls among the items are dispatched, unless they have been. -/
structure Dispatches (ms : List ModelItem) (s s' : State) : Prop where
  grows : ∀ callId ∈ s.ids, callId ∈ s'.ids
  nodup : s.ids.Nodup → s'.ids.Nodup
  called : ∀ callId ∈ s'.ids, callId ∈ s.ids ∨ callId ∈ calledIds ms

theorem Dispatches.of_ids {ms : List ModelItem} (h : s'.ids = s.ids) : Dispatches ms s s' where
  grows _ hmem := h ▸ hmem
  nodup hnodup := h ▸ hnodup
  called _ hmem := .inl (h ▸ hmem)

theorem Dispatches.append {ms ms' : List ModelItem} (h : Dispatches ms s s')
    (h' : Dispatches ms' s' s'') : Dispatches (ms ++ ms') s s'' where
  grows callId hmem := h'.grows callId (h.grows callId hmem)
  nodup hnodup := h'.nodup (h.nodup hnodup)
  called callId hmem := by
    rw [calledIds, List.filterMap_append, List.mem_append]
    rcases h'.called callId hmem with hmem | hmem
    · exact (h.called callId hmem).imp_right .inl
    · exact .inr (.inr hmem)

theorem Dispatches.cons {m : ModelItem} {ms : List ModelItem} (h : Dispatches [m] s s') :
    Dispatches (m :: ms) s s' := by
  have hrest : Dispatches ms s' s' := .of_ids rfl
  exact h.append hrest

theorem dispatches_dispatch (t : Turn) (m : ModelItem) :
    Dispatches [m] t.state (t.dispatch m).state := by
  unfold Turn.dispatch
  split
  · next c =>
      split
      · split <;> exact .of_ids rfl
      · next hnone =>
          have hfresh : c.callId ∉ t.state.ids := by
            intro hmem
            obtain ⟨c', hmem', hid⟩ := List.mem_map.mp hmem
            have := List.find?_eq_none.mp hnone c' hmem'
            simp [hid] at this
          have hids : ∀ calls : List PendingCall, calls = t.state.calls ++ [{ toToolCall := c }] →
              calls.map (fun c => c.callId) = t.state.ids ++ [c.callId] := by
            rintro calls rfl
            simp [State.ids]
          refine ⟨fun callId hmem => ?_, fun hnodup => ?_, fun callId hmem => ?_⟩
          · rw [State.ids, hids _ rfl]
            exact List.mem_append_left _ hmem
          · rw [State.ids, hids _ rfl]
            refine List.nodup_append'.mpr ⟨hnodup, List.nodup_singleton _, ?_⟩
            exact List.disjoint_singleton.mpr hfresh
          · rw [State.ids, hids _ rfl] at hmem
            exact (List.mem_append.mp hmem).imp_right fun hmem => hmem
  · exact .of_ids rfl

theorem dispatches_observeItem (t : Turn) (m : ModelItem) :
    Dispatches [m] t.state (t.observeItem m).state := by
  unfold Turn.observeItem
  split
  · exact dispatches_dispatch t m
  · obtain ⟨_, _, heq⟩ := hear_frame (t.dispatch m) m
    have hsame : Dispatches [] (t.dispatch m).state ((t.dispatch m).hear m).state :=
      .of_ids (by rw [heq]; rfl)
    exact (dispatches_dispatch t m).append hsame

theorem dispatches_each {f : Turn → ModelItem → Turn}
    (hf : ∀ t m, Dispatches [m] t.state (f t m).state) (t : Turn) (ms : List ModelItem) :
    Dispatches ms t.state (t.each f ms).state := by
  induction ms generalizing t with
  | nil => exact .of_ids rfl
  | cons m ms ih =>
      unfold Turn.each
      split
      · exact (hf t m).cons
      · exact (hf t m).append (ih (f t m))

/-- Items are observed that were unseen, or are in the history. -/
theorem Quiet.observes {t t' : Turn} {ms : List ModelItem} (h : Quiet s t.state)
    (hobserves : t.Observes t') (hd : Dispatches ms t.state t'.state)
    (hms : ∀ callId ∈ calledIds ms, callId ∈ s.unseen ∨ callId ∈ callIds s.history) :
    Quiet s t'.state := by
  obtain ⟨calls, spoken, said, dispatched, raised, rfl⟩ := hobserves
  exact
    { history := h.history
      lastSnapshot := h.lastSnapshot
      grows := fun callId hmem => hd.grows callId (h.grows callId hmem)
      nodup := fun hnodup => hd.nodup (h.nodup hnodup)
      called := fun callId hmem =>
        (hd.called callId hmem).elim (h.called callId) fun hnew => .inr (hms callId hnew)
      unseen := h.unseen
      stream := h.stream }

theorem unseen_of_reader {e : Event} (h : s.reader = .done e) :
    ∀ callId ∈ calledIds e.items, callId ∈ s.unseen := by
  intro callId hmem
  obtain ⟨m, hm, hid⟩ := List.mem_filterMap.mp hmem
  refine List.mem_filterMap.mpr ⟨m, List.mem_flatMap.mpr ⟨e, ?_, hm⟩, hid⟩
  rw [State.unread, h]
  exact List.mem_cons_self

/-- The reader has handed its event on. -/
theorem quiet_reader (s : State) (calls : List PendingCall) (submitted : List String)
    (active : Bool) (hcalls : calls.map (fun c => c.callId) = s.ids) :
    Quiet s { s with reader := .waiting, calls, submitted, active } :=
  .same rfl rfl hcalls (fun _ he => .inl (mem_unread he)) fun stream h hlive =>
    ⟨stream, h, hlive, rfl⟩

theorem quiet_readEvent (s : State) : Quiet s s.readEvent.state := by
  unfold State.readEvent
  split
  · refine quiet_reader s _ _ _ ?_
    rw [List.map_map]
    refine List.map_congr_left fun c _ => ?_
    rw [Function.comp_apply]
    split <;> rfl
  · next m hreader =>
      refine (quiet_reader s _ _ _ rfl).observes (observes_observeItem _ m)
        (dispatches_observeItem _ m) fun callId hmem => .inl ?_
      exact unseen_of_reader hreader callId hmem
  · next kind output hreader =>
      have hquiet := (quiet_reader s _ _ false rfl).observes
        (t := { state := { s with reader := .waiting, active := false } })
        (observes_each observes_observeItem _ output)
        (dispatches_each dispatches_observeItem _ output)
        fun callId hmem => .inl (unseen_of_reader hreader callId hmem)
      exact hquiet
  · exact quiet_reader s _ _ _ rfl
  · exact quiet_reader s _ _ _ rfl
  · exact .refl s
  · exact .refl s

theorem Quiet.resume {t : Turn} (h : Quiet s t.state) (needsWork : Bool) :
    Quiet s (t.resume needsWork).state := by
  unfold Turn.resume
  split
  · exact h.trans (quiet_interrupt t.state)
  · exact h.trans (quiet_loopTop t.state needsWork)

theorem quiet_wake (s : State) (needsWork : Bool) : Quiet s (s.wake needsWork).state := by
  unfold State.wake
  split
  · exact (quiet_readEvent s).resume needsWork
  · have hread := (quiet_readEvent s).trans (quiet_readMessage _)
    exact hread.resume (t := { s.readEvent with state := s.readEvent.state.readMessage }) needsWork

theorem calledIds_produced (s : State) : calledIds s.produced = callIds s.history := by
  rw [calledIds, State.produced, List.filterMap_filterMap, callIds]
  refine List.filterMap_congr fun item _ => ?_
  cases item with
  | produced m => cases m <;> rfl
  | _ => rfl

theorem quiet_redispatch (s : State) (text : String) (limit : Option Nat) :
    Quiet s (s.redispatch text limit).state := by
  have hstart : Quiet s { s with
      queued := s.queued ++ (if text = "" then [] else [text]), responsesLeft := limit } :=
    .same rfl rfl rfl (fun _ h => .inl h) fun stream h hlive => ⟨stream, h, hlive, rfl⟩
  unfold State.redispatch
  refine hstart.observes (observes_each observes_dispatch _ s.produced)
    (dispatches_each dispatches_dispatch _ s.produced) fun callId hmem => .inr ?_
  exact calledIds_produced s ▸ hmem

theorem quiet_run (s : State) (text : String) (limit : Option Nat) (needsWork : Bool) :
    Quiet s (s.run text limit needsWork).state := by
  have hwaiting : ∀ s : State, Quiet s { s with reader := .waiting, message := .waiting } :=
    fun s => .same rfl rfl rfl (fun _ he => .inl (mem_unread he)) fun stream h hlive =>
      ⟨stream, h, hlive, rfl⟩
  unfold State.run
  split
  · exact (quiet_redispatch s text limit).resume needsWork
  · have hready := (quiet_redispatch s text limit).trans (hwaiting _)
    exact hready.resume (t := { s.redispatch text limit with state := _ }) needsWork

/-! ## A request on its way -/

/-- What the loop has collected for a request. -/
structure Inputs (s : State) (inputs : List Item) : Prop where
  kinds : ∀ item ∈ inputs, item.isInput
  nodup : (outputIds inputs).Nodup
  called : ∀ callId ∈ outputIds inputs, callId ∈ s.ids

/-- What stands at the place the run is at. -/
def Ready (s : State) : Prop :=
  match s.place with
  | .preparing inputs | .settling inputs _ => Inputs s inputs
  | .counting inputs added full snapshot => Inputs s inputs ∧ added = s.added inputs snapshot ∧
      full = s.history ++ added ∧ ∀ stream, s.stream = some stream → stream.live = false
  | _ => True

theorem Inputs.quiet {inputs : List Item} (h : Inputs s inputs) (hq : Quiet s s') :
    Inputs s' inputs :=
  ⟨h.kinds, h.nodup, fun callId hmem => hq.grows callId (h.called callId hmem)⟩

/-- A step of another party. -/
theorem Ready.quiet (h : Ready s) (hq : Quiet s s') (hplace : s'.place = s.place) : Ready s' := by
  unfold Ready at *
  rw [hplace]
  split
  · next hp => rw [hp] at h; exact Inputs.quiet h hq
  · next hp => rw [hp] at h; exact Inputs.quiet h hq
  · next hp =>
      rw [hp] at h
      obtain ⟨hinputs, hadded, hfull, hlive⟩ := h
      refine ⟨hinputs.quiet hq, ?_, hq.history ▸ hfull, fun stream hstream => ?_⟩
      · rw [hadded, State.added, State.added, hq.history, hq.lastSnapshot]
      · by_contra hne
        obtain ⟨stream₀, hstream₀, hlive₀, -⟩ := hq.stream stream hstream (by simpa using hne)
        rw [hlive stream₀ hstream₀] at hlive₀
        cases hlive₀
  · trivial

theorem ready_cleanup (s : State) : Ready s.cleanup := by
  unfold State.cleanup
  split <;> trivial

theorem ready_interrupt (s : State) : Ready s.interrupt := by
  unfold State.interrupt
  split
  · trivial
  · exact ready_cleanup _

theorem ready_create {inputs : List Item} (h : Inputs s inputs) : Ready (s.create inputs) := by
  unfold State.create
  split
  · exact ready_interrupt s
  · exact ⟨h.kinds, h.nodup, h.called⟩

theorem outputIds_map {f : String → Item} (hf : ∀ value, (f value).outputId? = none)
    (values : List String) : outputIds (values.map f) = [] :=
  List.filterMap_eq_nil_iff.mpr fun item hmem => by
    obtain ⟨value, -, rfl⟩ := List.mem_map.mp hmem
    exact hf value

theorem outputIds_sublist (calls : List PendingCall) :
    (outputIds (calls.filterMap fun c => c.task.map (.callOutput c.callId))).Sublist
      (calls.map fun c => c.callId) := by
  induction calls with
  | nil => exact .slnil
  | cons c calls ih =>
      cases htask : c.task with
      | none =>
          rw [List.filterMap_cons_none (by rw [htask]; rfl)]
          exact ih.cons _
      | some output =>
          rw [List.filterMap_cons_some (b := .callOutput c.callId output) (by rw [htask]; rfl)]
          exact ih.cons_cons _

theorem outputIds_collect (s : State) : (outputIds s.collect).Sublist s.ids := by
  unfold State.collect
  split
  · exact List.nil_sublist _
  · rw [outputIds_append, outputIds_append, outputIds_map (fun _ => rfl),
      outputIds_map (fun _ => rfl), List.append_nil, List.append_nil]
    have hpending : s.pending.Sublist s.calls := List.filter_sublist
    exact (outputIds_sublist s.pending).trans (hpending.map _)

theorem inputs_collect (h : s.ids.Nodup) : Inputs s s.collect := by
  refine ⟨fun item hmem => ?_, h.sublist (outputIds_collect s),
    fun callId hmem => (outputIds_collect s).subset hmem⟩
  unfold State.collect at hmem
  split at hmem
  · cases hmem
  · rcases List.mem_append.mp hmem with hmem | hmem
    · rcases List.mem_append.mp hmem with hmem | hmem
      · obtain ⟨c, -, hitem⟩ := List.mem_filterMap.mp hmem
        obtain ⟨output, -, rfl⟩ := Option.map_eq_some_iff.mp hitem
        rfl
      · obtain ⟨value, -, rfl⟩ := List.mem_map.mp hmem
        rfl
    · obtain ⟨value, -, rfl⟩ := List.mem_map.mp hmem
      rfl

theorem ready_loopTop (needsWork : Bool) (h : s.ids.Nodup) : Ready (s.loopTop needsWork).1 := by
  unfold State.loopTop
  split
  · trivial
  · split
    · exact ready_create (inputs_collect h)
    · split
      · split
        · exact ready_create (inputs_collect (s := { s with queued := s.queued ++ [nudge] }) h)
        · exact ready_cleanup s
      · trivial

theorem ready_resume {t : Turn} (needsWork : Bool) (h : t.state.ids.Nodup) :
    Ready (t.resume needsWork).state := by
  unfold Turn.resume
  split
  · exact ready_interrupt t.state
  · exact ready_loopTop needsWork h

theorem quiet_fail (s : State) : Quiet s s.fail := by
  unfold State.fail
  split
  · exact quiet_interrupt s
  · exact quiet_interrupt s
  · exact quiet_interrupt s
  · exact .refl s

theorem ready_fail (h : Ready s) : Ready s.fail := by
  unfold State.fail
  split
  · exact ready_interrupt s
  · exact ready_interrupt s
  · exact ready_interrupt s
  · exact h

theorem ready_proceed (h : Ready s) : Ready s.proceed := by
  unfold State.proceed
  split
  · exact ready_cleanup _
  · trivial
  · trivial
  · trivial
  · exact h

theorem ready_cancel (h : Ready s) : Ready s.cancel := by
  unfold State.cancel
  split
  · exact h
  · exact ready_interrupt s
  · exact ready_interrupt s
  · exact ready_interrupt s
  · exact ready_interrupt s
  · exact ready_cleanup s
  · trivial
  · trivial
  · trivial

theorem quiet_prepare (s : State) (context : Option String) : Quiet s (s.prepare context) := by
  unfold State.prepare
  split
  · exact quiet_place s _
  · exact .refl s

theorem ready_prepare (h : Ready s) (context : Option String) : Ready (s.prepare context) := by
  unfold State.prepare
  split
  · next inputs hp =>
      rw [Ready, hp] at h
      exact ⟨h.kinds, h.nodup, h.called⟩
  · exact h

/-- The old stream has ended. -/
theorem quiet_settle (s : State) : Quiet s s.settle := by
  unfold State.settle
  split
  · split
    · exact quiet_interrupt s
    · refine .same rfl rfl rfl (fun _ h => .inl h) fun stream hstream hlive => ?_
      obtain ⟨stream₀, -, rfl⟩ := Option.map_eq_some_iff.mp hstream
      simp [Stream.live] at hlive
  · exact .refl s

theorem ready_settle (h : Ready s) : Ready s.settle := by
  unfold State.settle
  split
  · next inputs snapshot hp =>
      split
      · exact ready_interrupt s
      · rw [Ready, hp] at h
        refine ⟨⟨h.kinds, h.nodup, h.called⟩, rfl, rfl, fun stream hstream => ?_⟩
        obtain ⟨stream₀, -, rfl⟩ := Option.map_eq_some_iff.mp hstream
        simp [Stream.live]
  · exact h

theorem quiet_takeMessage (s : State) : Quiet s s.takeMessage := by
  unfold State.takeMessage
  split
  · exact .same rfl rfl rfl (fun _ h => .inl h) fun stream h hlive => ⟨stream, h, hlive, rfl⟩
  · exact .refl s

theorem quiet_takeOrphan (s : State) : Quiet s s.takeOrphan := by
  unfold State.takeOrphan
  split
  · exact .same rfl rfl rfl (fun _ h => .inl h) fun stream h hlive => ⟨stream, h, hlive, rfl⟩
  · exact .refl s

theorem quiet_takeEvent (s : State) : Quiet s s.takeEvent := by
  unfold State.takeEvent
  split
  · next e es hreader hevents =>
      refine .same rfl rfl rfl (fun e' he => .inl (mem_unread ?_)) fun stream h hlive =>
        ⟨stream, h, hlive, rfl⟩
      exact hevents ▸ he
  · exact .refl s

theorem quiet_toolDone (s : State) (callId output : String) : Quiet s (s.toolDone callId output) := by
  refine .same rfl rfl ?_ (fun _ h => .inl h) fun stream h hlive => ⟨stream, h, hlive, rfl⟩
  rw [State.ids, State.toolDone, List.map_map]
  refine List.map_congr_left fun c _ => ?_
  rw [Function.comp_apply]
  split <;> rfl

theorem quiet_endStream (s : State) : Quiet s s.endStream := by
  unfold State.endStream
  split
  · exact .refl s
  · next stream hstream =>
      split
      · exact .refl s
      · refine .same rfl rfl rfl (fun e he => ?_) fun stream' hstream' hlive => ?_
        · rw [State.unread, List.mem_append] at he
          rcases he with he | he
          · exact .inl (List.mem_append_left _ he)
          · dsimp only at he
            split at he
            · exact .inl (mem_unread he)
            · rcases List.mem_append.mp he with he | he
              · exact .inl (mem_unread he)
              · obtain rfl := List.mem_singleton.mp he
                exact .inr rfl
        · obtain rfl := Option.some.inj hstream'
          simp [Stream.live] at hlive

/-! ## What holds along a run -/

structure Kept (given : List String) (s : State) : Prop where
  sane : Sane given s.history
  nodup : s.ids.Nodup
  sent : ∀ callId ∈ given, callId ∈ s.ids
  known : ∀ callId, callId ∈ s.ids ∨ callId ∈ s.unseen →
    callId ∈ callIds s.history ∨ callId ∈ given
  snapshot : ∀ text, s.lastSnapshot = some text → latestSnapshot s.history = some text
  stream : ∀ stream, s.stream = some stream → stream.live →
    ∀ item ∈ s.history.drop stream.outputStart, item.isProduced
  ready : Ready s

variable {given : List String}

theorem Kept.quiet (h : Kept given s) (hq : Quiet s s') (hready : Ready s') : Kept given s' where
  sane := hq.history ▸ h.sane
  nodup := hq.nodup h.nodup
  sent callId hmem := hq.grows callId (h.sent callId hmem)
  known callId hmem := by
    rw [hq.history]
    rcases hmem with hmem | hmem
    · rcases hq.called callId hmem with hmem | hmem | hmem
      · exact h.known callId (.inl hmem)
      · exact h.known callId (.inr hmem)
      · exact .inl hmem
    · exact h.known callId (.inr (hq.unseen callId hmem))
  snapshot text hlast := hq.history ▸ h.snapshot text (hq.lastSnapshot ▸ hlast)
  stream stream hstream hlive := by
    obtain ⟨stream₀, hstream₀, hlive₀, hstart⟩ := hq.stream stream hstream hlive
    rw [hq.history, ← hstart]
    exact h.stream stream₀ hstream₀ hlive₀
  ready := hready

/-- Another party steps in. -/
theorem Kept.elsewhere (h : Kept given s) (hq : Quiet s s') (hplace : s'.place = s.place) :
    Kept given s' :=
  h.quiet hq (h.ready.quiet hq hplace)

/-! ## Snapshots -/

theorem latestSnapshot_append_snapshot (items : List Item) (text : String) :
    latestSnapshot (items ++ [.snapshot text]) = some text := by
  rw [latestSnapshot, List.filterMap_append]
  exact List.getLast?_concat

theorem latestSnapshot_append {items xs : List Item} (h : ∀ item ∈ xs, item.snapshot? = none) :
    latestSnapshot (items ++ xs) = latestSnapshot items := by
  rw [latestSnapshot, List.filterMap_append, List.filterMap_eq_nil_iff.mpr h, List.append_nil]
  rfl

theorem snapshot?_of_isInput {item : Item} (h : item.isInput) : item.snapshot? = none := by
  cases item <;> first | rfl | cases h

theorem snapshot?_of_isProduced {item : Item} (h : item.isProduced) : item.snapshot? = none := by
  cases item <;> first | rfl | cases h

/-! ## The step that sends a request -/

/-- What a request promises: an output follows its call, unless the output has
been sent before and a compaction has absorbed the call. -/
structure WellFormed (given : List String) (r : Request) : Prop where
  paired : ∀ callId ∈ outputIds r.full,
    Preceded r.full callId ∨ callId ∉ callIds r.full ∧ Absorbed r.full ∧ callId ∈ given
  calls : (callIds r.full).Nodup
  outputs : (outputIds r.full).Nodup
  keys : (producedKeys r.full).Nodup
  snapshot : r.snapshot ≠ "" → latestSnapshot r.full = some r.snapshot

theorem outputId?_of_snapshots {item : Item} {snapshot : String} {last : Option String}
    (h : item ∈ if snapshot ≠ "" ∧ last ≠ some snapshot then [Item.snapshot snapshot] else []) :
    item = .snapshot snapshot := by
  split at h
  · exact List.mem_singleton.mp h
  · cases h

theorem producedKeys_added {inputs : List Item} (h : Inputs s inputs) (snapshot : String) :
    producedKeys (s.added inputs snapshot) = [] := by
  refine List.filterMap_eq_nil_iff.mpr fun item hmem => ?_
  rcases List.mem_append.mp hmem with hmem | hmem
  · have hkind := h.kinds item (List.mem_filter.mp hmem).1
    cases item with
    | produced m => cases hkind
    | _ => rfl
  · rw [outputId?_of_snapshots hmem]
    rfl

theorem outputIds_added (inputs : List Item) (snapshot : String) :
    (outputIds (s.added inputs snapshot)).Sublist (outputIds inputs) := by
  have hnil : outputIds (if snapshot ≠ "" ∧ s.lastSnapshot ≠ some snapshot then
      [Item.snapshot snapshot] else []) = [] :=
    List.filterMap_eq_nil_iff.mpr fun item hmem => by
      rw [outputId?_of_snapshots hmem]
      rfl
  rw [State.added, outputIds_append, hnil, List.append_nil]
  exact (List.filter_sublist).filterMap _

theorem not_mem_history_of_added {inputs : List Item} {snapshot callId : String}
    (h : callId ∈ outputIds (s.added inputs snapshot)) : callId ∉ outputIds s.history := by
  obtain ⟨output, hmem⟩ := mem_outputIds.mp h
  rcases List.mem_append.mp hmem with hmem | hmem
  · have hnew := (List.mem_filter.mp hmem).2
    simpa [Item.outputId?] using hnew
  · cases outputId?_of_snapshots hmem

/-- The history with what a request adds to it. -/
theorem Kept.added (h : Kept given s) {inputs : List Item} (hinputs : Inputs s inputs)
    (snapshot : String) :
    Sane (given ++ outputIds (s.added inputs snapshot)) (s.history ++ s.added inputs snapshot) := by
  refine h.sane.append (producedKeys_added hinputs snapshot)
    (hinputs.nodup.sublist (outputIds_added inputs snapshot))
    (fun callId hmem => not_mem_history_of_added hmem) fun callId hmem => ?_
  exact h.known callId (.inl (hinputs.called callId ((outputIds_added inputs snapshot).subset hmem)))

theorem snapshot_added (h : Kept given s) {inputs : List Item} (hinputs : Inputs s inputs)
    {snapshot : String} (hne : snapshot ≠ "") :
    latestSnapshot (s.history ++ s.added inputs snapshot) = some snapshot := by
  have hfilter : ∀ item ∈ inputs.filter fun i => i.outputId?.all fun callId =>
      callId ∉ outputIds s.history, item.snapshot? = none :=
    fun item hmem => snapshot?_of_isInput (hinputs.kinds item (List.mem_filter.mp hmem).1)
  by_cases hlast : s.lastSnapshot = some snapshot
  · rw [State.added, if_neg (by simp [hlast]), List.append_nil, latestSnapshot_append hfilter]
    exact h.snapshot snapshot hlast
  · rw [State.added, if_pos ⟨hne, hlast⟩, ← List.append_assoc]
    exact latestSnapshot_append_snapshot _ snapshot

theorem latestSnapshot_added_empty {inputs : List Item} (hinputs : Inputs s inputs) :
    latestSnapshot (s.history ++ s.added inputs "") = latestSnapshot s.history := by
  refine latestSnapshot_append fun item hmem => ?_
  rw [State.added, if_neg (by simp), List.append_nil] at hmem
  exact snapshot?_of_isInput (hinputs.kinds item (List.mem_filter.mp hmem).1)

/-- A summary is deferred, or takes the place of everything. -/
inductive Summarized (full : List Item) : List Item → Prop where
  | kept : Summarized full full
  | replaced {items : List Item} : (∀ callId ∈ callIds full, callId ∈ outputIds full) →
      producedKeys items = [] → outputIds items = [] → Absorbed items →
      latestSnapshot items = latestSnapshot full → Summarized full items

theorem summarized (summary : Option String) (full : List Item) :
    Summarized full ((summary.map (summarize · full)).getD full) := by
  cases summary with
  | none => exact .kept
  | some text =>
      change Summarized full (summarize text full)
      unfold summarize
      split
      · next hall =>
          have husers : ∀ item ∈ full.filter Item.isUser, ∃ text, item = .user text := by
            intro item hmem
            have huser := (List.mem_filter.mp hmem).2
            cases item with
            | user text => exact ⟨text, rfl⟩
            | _ => cases huser
          have hkinds : ∀ item ∈ full.filter Item.isUser ++ [.summary text] ++
              ((latestSnapshot full).map Item.snapshot).toList,
              item.producedKey? = none ∧ item.outputId? = none := by
            intro item hmem
            rcases List.mem_append.mp hmem with hmem | hmem
            · rcases List.mem_append.mp hmem with hmem | hmem
              · obtain ⟨text, rfl⟩ := husers item hmem
                exact ⟨rfl, rfl⟩
              · rw [List.mem_singleton.mp hmem]
                exact ⟨rfl, rfl⟩
            · obtain ⟨text, -, rfl⟩ := Option.map_eq_some_iff.mp (Option.mem_toList.mp hmem)
              exact ⟨rfl, rfl⟩
          have hnone : latestSnapshot (full.filter Item.isUser ++ [.summary text]) = none := by
            rw [latestSnapshot, List.filterMap_eq_nil_iff.mpr fun item hmem => ?_]
            · rfl
            · rcases List.mem_append.mp hmem with hmem | hmem
              · obtain ⟨text, rfl⟩ := husers item hmem
                rfl
              · rw [List.mem_singleton.mp hmem]
                rfl
          refine .replaced (fun callId hmem => by simpa using List.all_eq_true.mp hall callId hmem)
            (List.filterMap_eq_nil_iff.mpr fun item hmem => (hkinds item hmem).1)
            (List.filterMap_eq_nil_iff.mpr fun item hmem => (hkinds item hmem).2)
            ⟨.summary text, List.mem_append_left _ (List.mem_append_right _
              (List.mem_singleton_self _)), rfl⟩ ?_
          cases hlast : latestSnapshot full with
          | none => simpa using hnone
          | some text' => exact latestSnapshot_append_snapshot _ text'
      · exact .kept

theorem Summarized.sane {full items : List Item} (h : Summarized full items)
    (hsane : Sane given full) : Sane given items := by
  cases h with
  | kept => exact hsane
  | replaced _ hkeys houtputs habsorbed _ => exact .of_summary hkeys houtputs habsorbed given

theorem Summarized.snapshot {full items : List Item} (h : Summarized full items) :
    latestSnapshot items = latestSnapshot full := by
  cases h with
  | kept => rfl
  | replaced _ _ _ _ hsnapshot => exact hsnapshot

theorem Kept.request (h : Kept given s) (summary : Option String) :
    (∀ r, (s.request summary).1.sent = some r → WellFormed given r) ∧
      Kept (given ++ addedOutputs (.request summary, (s.request summary).1))
        (s.request summary).2 := by
  unfold State.request
  split
  · next inputs added full snapshot hp =>
      have hready := h.ready
      rw [Ready, hp] at hready
      obtain ⟨hinputs, rfl, rfl, -⟩ := hready
      have hsane := h.added hinputs snapshot
      have hsummary := summarized summary (s.history ++ s.added inputs snapshot)
      dsimp only
      generalize (summary.map (summarize · (s.history ++ s.added inputs snapshot))).getD
        (s.history ++ s.added inputs snapshot) = items at hsummary ⊢
      have hsane' := hsummary.sane hsane
      have hnodup := hsane'.keys.sublist (callIds_sublist items)
      have hknown : ∀ callId ∈ s.ids, callId ∈ callIds (s.history ++ s.added inputs snapshot) ∨
          callId ∈ given := by
        intro callId hmem
        rw [callIds_append]
        exact (h.known callId (.inl hmem)).imp_left (List.mem_append_left _)
      constructor
      · intro r hr
        obtain rfl := Option.some.inj hr
        refine ⟨fun callId hmem => ?_, hnodup, hsane'.outputs, hsane'.keys, fun hne => ?_⟩
        · cases hsummary with
          | kept =>
              refine (hsane.paired callId hmem).imp_right fun hnone => ⟨hnone.1, hnone.2, ?_⟩
              refine (List.mem_append.mp (hsane.sent callId hmem)).elim id fun hnew => ?_
              have hcalled := hinputs.called callId ((outputIds_added inputs snapshot).subset hnew)
              exact (hknown callId hcalled).resolve_left hnone.1
          | replaced _ _ houtputs _ _ =>
              rw [houtputs] at hmem
              cases hmem
        · rw [hsummary.snapshot]
          exact snapshot_added h hinputs hne
      · refine ⟨hsane', h.nodup, fun callId hmem => ?_, fun callId hmem => ?_, fun text hlast => ?_,
          fun stream hstream _ item hitem => ?_, trivial⟩
        · refine (List.mem_append.mp hmem).elim (h.sent callId) fun hnew => ?_
          exact hinputs.called callId ((outputIds_added inputs snapshot).subset hnew)
        · have hbefore : callId ∈ callIds (s.history ++ s.added inputs snapshot) ∨ callId ∈ given := by
            rw [callIds_append]
            exact (h.known callId hmem).imp_left (List.mem_append_left _)
          rcases hbefore with hcall | hgiven
          · cases hsummary with
            | kept => exact .inl hcall
            | replaced hall _ _ _ _ => exact .inr (hsane.sent callId (hall callId hcall))
          · exact .inr (List.mem_append_left _ hgiven)
        · dsimp only at hlast ⊢
          rw [hsummary.snapshot]
          split at hlast
          · next hne => exact Option.some.inj hlast ▸ snapshot_added h hinputs hne
          · next hempty =>
              obtain rfl : snapshot = "" := Decidable.not_not.mp hempty
              rw [latestSnapshot_added_empty hinputs]
              exact h.snapshot text hlast
        · obtain rfl := Option.some.inj hstream
          rw [List.drop_length] at hitem
          cases hitem
  · refine ⟨(fun r hr => by cases hr), ?_⟩
    show Kept (given ++ []) s
    rw [List.append_nil]
    exact h

/-! ## The steps of the stream -/

/-- The model gives its items distinct ids. -/
def Fresh (s : State) : Act → Prop
  | .receive (.itemDone m) => s.live → ∀ key, m.key = some key →
      key ∉ producedKeys s.history ∧ key ∉ s.ids
  | .receive (.terminal _ output) => ∀ stream, s.stream = some stream → stream.live →
      Distinct s.ids (s.history.take stream.outputStart) (s.history.drop stream.outputStart) output
  | _ => True

theorem unseen_append {e : Event} (s : State) (stream : Option Stream)
    (history : List Item) (lastSnapshot : Option String) {callId : String}
    (h : callId ∈ ({ s with events := s.events ++ [e], stream, history, lastSnapshot } :
      State).unseen) : callId ∈ s.unseen ∨ callId ∈ calledIds e.items := by
  obtain ⟨m, hm, hid⟩ := List.mem_filterMap.mp h
  obtain ⟨e', he', hm⟩ := List.mem_flatMap.mp hm
  rw [State.unread, ← List.append_assoc] at he'
  rcases List.mem_append.mp he' with he' | he'
  · exact .inl (List.mem_filterMap.mpr ⟨m, List.mem_flatMap.mpr ⟨e', he', hm⟩, hid⟩)
  · rw [List.mem_singleton.mp he'] at hm
    exact .inr (List.mem_filterMap.mpr ⟨m, hm, hid⟩)

theorem not_mem_of_fresh (h : Kept given s) {callId : String} (hnew : callId ∉ s.ids) :
    callId ∉ given :=
  fun hmem => hnew (h.sent callId hmem)

/-- An item is streamed. -/
theorem Kept.item (h : Kept given s) {stream : Stream} (hstream : s.stream = some stream)
    (hlive : stream.live) {m : ModelItem}
    (hfresh : ∀ key, m.key = some key → key ∉ producedKeys s.history ∧ key ∉ s.ids) :
    Kept given { s with
      history := s.history ++ [.produced m], events := s.events ++ [.itemDone m] } := by
  have hproduced : ∀ item ∈ [Item.produced m], item.isProduced := by
    intro item hmem
    rw [List.mem_singleton.mp hmem]
    rfl
  have hsane : Sane given (s.history ++ [.produced m]) := by
    have hnil : Sane given (s.history ++ []) := (List.append_nil s.history).symm ▸ h.sane
    refine hnil.replace (fun item hmem => by cases hmem) hproduced ?_ ?_ ?_
    · rw [producedKeys_append, producedKeys_singleton]
      refine List.nodup_append'.mpr ⟨h.sane.keys, m.key.toList_nodup, fun key hold hkey => ?_⟩
      exact (hfresh key (Option.mem_toList.mp hkey)).1 hold
    · intro callId hmem
      rw [callIds_singleton] at hmem
      exact .inr (not_mem_of_fresh h (hfresh callId (mem_calledIds_singleton.mp hmem).2).2)
    · rintro ⟨item, hmem, -⟩
      cases hmem
  refine ⟨hsane, h.nodup, h.sent, fun callId hmem => ?_, fun text hlast => ?_,
    fun stream' hstream' hlive' item hitem => ?_, ?_⟩
  · rw [callIds_append]
    have hold : callId ∈ s.ids ∨ callId ∈ s.unseen → callId ∈ callIds s.history ++
        callIds [Item.produced m] ∨ callId ∈ given :=
      fun hmem => (h.known callId hmem).imp_left (List.mem_append_left _)
    rcases hmem with hmem | hmem
    · exact hold (.inl hmem)
    · rcases unseen_append s s.stream _ _ hmem with hmem | hmem
      · exact hold (.inr hmem)
      · rw [callIds_singleton]
        exact .inl (List.mem_append_right _ hmem)
  · rw [latestSnapshot_append fun item hmem => snapshot?_of_isProduced (hproduced item hmem)]
    exact h.snapshot text hlast
  · obtain rfl := Option.some.inj (hstream.symm.trans hstream')
    rw [List.drop_append, List.mem_append] at hitem
    rcases hitem with hitem | hitem
    · exact h.stream stream hstream hlive item hitem
    · exact hproduced item (List.mem_of_mem_drop hitem)
  · -- a stream that is live is not counted over
    have hready := h.ready
    unfold Ready at *
    dsimp only
    split
    · next hp => rw [hp] at hready; exact ⟨hready.kinds, hready.nodup, hready.called⟩
    · next hp => rw [hp] at hready; exact ⟨hready.kinds, hready.nodup, hready.called⟩
    · next hp =>
        rw [hp] at hready
        rw [hready.2.2.2 stream hstream] at hlive
        cases hlive
    · trivial

/-- A terminal's output is merged. -/
theorem Kept.merge (h : Kept given s) {stream : Stream} (hstream : s.stream = some stream)
    (hlive : stream.live) {output : List ModelItem}
    (hfresh : Distinct s.ids (s.history.take stream.outputStart)
      (s.history.drop stream.outputStart) output) :
    Sane given (s.mergeHistory stream.outputStart output).history ∧
      (∀ callId ∈ callIds s.history,
        callId ∈ callIds (s.mergeHistory stream.outputStart output).history) ∧
      (∀ callId ∈ calledIds output,
        callId ∈ callIds (s.mergeHistory stream.outputStart output).history) ∧
      latestSnapshot (s.mergeHistory stream.outputStart output).history =
        latestSnapshot s.history := by
  have hsplit := List.take_append_drop stream.outputStart s.history
  have hproduced := h.stream stream hstream hlive
  unfold State.mergeHistory
  dsimp only
  generalize s.history.take stream.outputStart = items at hfresh hsplit ⊢
  generalize s.history.drop stream.outputStart = xs at hfresh hsplit hproduced ⊢
  have hmerge := Mergeable.merge ⟨hfresh, hproduced, hsplit ▸ h.sane.keys⟩
  generalize output.foldl mergeItem xs = ys at hmerge ⊢
  refine ⟨?_, fun callId hmem => ?_, fun callId hmem => ?_, ?_⟩
  · refine (hsplit.symm ▸ h.sane : Sane given (items ++ xs)).replace hproduced hmerge.produced
      hmerge.keys (fun callId hmem => ?_) hmerge.absorbed
    exact (hmerge.fresh callId hmem).imp_right (not_mem_of_fresh h)
  · rw [← hsplit, callIds_append] at hmem
    rw [callIds_append]
    exact List.mem_append.mpr ((List.mem_append.mp hmem).imp_right (hmerge.kept callId))
  · rw [callIds_append]
    exact List.mem_append_right _ (hmerge.called callId hmem)
  · rw [← hsplit, latestSnapshot_append fun item hmem => snapshot?_of_isProduced (hproduced item hmem),
      latestSnapshot_append fun item hmem => snapshot?_of_isProduced (hmerge.produced item hmem)]

/-- What comes before the latest compaction item is deleted. -/
theorem prune_cases (s : State) : s.pruneCompactedHistory = s ∨
    ∃ before kept, s.history = before ++ kept ∧ Absorbed kept ∧
      (∀ callId ∈ callIds before, callId ∈ outputIds s.history) ∧
      s.pruneCompactedHistory = { s with history := kept, lastSnapshot := none } := by
  unfold State.pruneCompactedHistory
  split
  · next before kept heq =>
      obtain ⟨hhistory, habsorbed⟩ := splitLatest_eq heq
      split
      · next hall =>
          refine .inr ⟨before, kept, hhistory, habsorbed, fun callId hmem => ?_, rfl⟩
          simpa using List.all_eq_true.mp hall callId hmem
      · exact .inl rfl
  · exact .inl rfl

/-- The history after a terminal. -/
structure Pruned (given : List String) (s s' : State) (output : List ModelItem) : Prop where
  sane : Sane given s'.history
  known : ∀ callId, callId ∈ callIds s.history ∨ callId ∈ calledIds output →
    callId ∈ callIds s'.history ∨ callId ∈ given
  snapshot : ∀ text, s'.lastSnapshot = some text → latestSnapshot s'.history = some text

theorem Kept.terminal (h : Kept given s) {stream : Stream} (hstream : s.stream = some stream)
    (hlive : stream.live) {output : List ModelItem} (kind : TerminalKind)
    (hfresh : Distinct s.ids (s.history.take stream.outputStart)
      (s.history.drop stream.outputStart) output) :
    Pruned given s (s.mergeOutput stream.outputStart kind output) output := by
  obtain ⟨hsane, hkept, hcalled, hsnapshot⟩ := h.merge hstream hlive hfresh
  have hlast : (s.mergeHistory stream.outputStart output).lastSnapshot = s.lastSnapshot := rfl
  have hmerged : Pruned given s (s.mergeHistory stream.outputStart output) output :=
    { sane := hsane
      known := fun callId hmem => .inl (hmem.elim (hkept callId) (hcalled callId))
      snapshot := fun text htext => hsnapshot ▸ h.snapshot text (hlast ▸ htext) }
  unfold State.mergeOutput
  split
  · rcases prune_cases (s.mergeHistory stream.outputStart output) with heq |
      ⟨before, kept, hhistory, habsorbed, hdone, heq⟩
    · rw [heq]
      exact hmerged
    · rw [heq]
      have hpruned : Sane given kept := by
        rw [hhistory] at hsane hdone
        exact hsane.prune habsorbed hdone
      refine ⟨hpruned, fun callId hmem => ?_, fun text htext => by cases htext⟩
      rcases hmerged.known callId hmem with hcall | hgiven
      · rw [hhistory, callIds_append] at hcall
        rcases List.mem_append.mp hcall with hcall | hcall
        · exact .inr (hsane.sent callId (hdone callId hcall))
        · exact .inl hcall
      · exact .inr hgiven
  · exact hmerged

theorem Kept.receive (h : Kept given s) (e : Event) (hfresh : Fresh s (.receive e)) :
    Kept given (s.receive e) := by
  have hother : ∀ e : Event, e.items = [] →
      Quiet s { s with events := s.events ++ [e] } := by
    intro e hitems
    refine .same rfl rfl rfl (fun e' he' => ?_) fun stream h hlive => ⟨stream, h, hlive, rfl⟩
    rw [State.unread, ← List.append_assoc] at he'
    rcases List.mem_append.mp he' with he' | he'
    · exact .inl he'
    · rw [List.mem_singleton.mp he']
      exact .inr hitems
  unfold State.receive
  split
  · exact h
  · next stream hstream =>
      split
      · exact h
      · next hdead =>
          have hlive : stream.live := by simpa using hdead
          split
          · next m =>
              have hnew := hfresh (by rw [State.live, hstream]; exact hlive)
              exact h.item hstream hlive hnew
          · next kind output =>
              have hpruned := h.terminal hstream hlive kind (hfresh stream hstream hlive)
              obtain ⟨history, lastSnapshot, heq⟩ :=
                mergeOutput_frame s stream.outputStart kind output
              rw [heq] at hpruned ⊢
              refine ⟨hpruned.sane, h.nodup, h.sent, fun callId hmem => ?_, hpruned.snapshot,
                fun stream' hstream' hlive' => ?_, ?_⟩
              · have hold : ∀ callId, callId ∈ s.ids ∨ callId ∈ s.unseen →
                    callId ∈ callIds history ∨ callId ∈ given := fun callId hmem =>
                  (h.known callId hmem).elim (fun hcall => hpruned.known callId (.inl hcall)) .inr
                rcases hmem with hmem | hmem
                · exact hold callId (.inl hmem)
                · rcases unseen_append s (some { stream with terminal := true }) history lastSnapshot
                    hmem with hmem | hmem
                  · exact hold callId (.inr hmem)
                  · exact hpruned.known callId (.inr hmem)
              · obtain rfl := Option.some.inj hstream'
                simp [Stream.live] at hlive'
              · have hready := h.ready
                unfold Ready at *
                dsimp only
                split
                · next hp => rw [hp] at hready; exact ⟨hready.kinds, hready.nodup, hready.called⟩
                · next hp => rw [hp] at hready; exact ⟨hready.kinds, hready.nodup, hready.called⟩
                · next hp =>
                    rw [hp] at hready
                    rw [hready.2.2.2 stream hstream] at hlive
                    cases hlive
                · trivial
          · exact h
          · next hitem hterminal _ =>
              refine h.elsewhere (hother e ?_) rfl
              cases e with
              | itemDone m => exact absurd rfl (hitem m)
              | terminal kind output => exact absurd rfl (hterminal kind output)
              | _ => rfl

/-! ## Every request -/

theorem resume_sent (t : Turn) (needsWork : Bool) : (t.resume needsWork).out.sent = t.out.sent := by
  unfold Turn.resume
  split <;> rfl

theorem Turn.Observes.sent {t t' : Turn} (h : t.Observes t') : t'.out.sent = t.out.sent := by
  obtain ⟨_, _, _, _, _, rfl⟩ := h
  rfl

theorem readEvent_sent (s : State) : s.readEvent.out.sent = none := by
  unfold State.readEvent
  split
  · rfl
  · next m _ => exact (observes_observeItem _ m).sent
  · next kind output _ =>
      exact (observes_each observes_observeItem
        { state := { s with reader := .waiting, active := false } } output).sent
  · rfl
  · rfl
  · rfl
  · rfl

theorem wake_sent (s : State) (needsWork : Bool) : (s.wake needsWork).out.sent = none := by
  unfold State.wake
  split
  · rw [resume_sent, readEvent_sent]
  · rw [resume_sent]
    exact readEvent_sent s

theorem ready_wake (h : s.ids.Nodup) (needsWork : Bool) : Ready (s.wake needsWork).state := by
  have hread := (quiet_readEvent s).nodup h
  unfold State.wake
  split
  · exact ready_resume needsWork hread
  · exact ready_resume needsWork ((quiet_readMessage s.readEvent.state).nodup hread)

theorem run_sent (s : State) (text : String) (limit : Option Nat) (needsWork : Bool) :
    (s.run text limit needsWork).out.sent = none := by
  have hredispatch : (s.redispatch text limit).out.sent = none :=
    (observes_each observes_dispatch _ s.produced).sent
  unfold State.run
  split
  · rw [resume_sent, hredispatch]
  · rw [resume_sent]
    exact hredispatch

theorem ready_run (h : s.ids.Nodup) (text : String) (limit : Option Nat) (needsWork : Bool) :
    Ready (s.run text limit needsWork).state := by
  have hredispatch := (quiet_redispatch s text limit).nodup h
  unfold State.run
  split
  · exact ready_resume needsWork hredispatch
  · exact ready_resume needsWork hredispatch

theorem Kept.step (h : Kept given s) (a : Act) (hfresh : Fresh s a) :
    (∀ r, (Responses.step s a).1.sent = some r → WellFormed given r) ∧
      Kept (given ++ addedOutputs (a, (Responses.step s a).1)) (Responses.step s a).2 := by
  have hsilent : ∀ {o : Output} {s' : State}, o.sent = none → Kept given s' →
      (∀ r, o.sent = some r → WellFormed given r) ∧ Kept (given ++ addedOutputs (a, o)) s' := by
    intro o s' hsent hkept
    rw [addedOutputs, hsent]
    refine ⟨(fun r hr => by cases hr), ?_⟩
    show Kept (given ++ []) s'
    rw [List.append_nil]
    exact hkept
  cases a with
  | run text limit needsWork =>
      simp only [Responses.step]
      split
      · exact hsilent (run_sent s text limit needsWork)
          (h.quiet (quiet_run s text limit needsWork) (ready_run h.nodup text limit needsWork))
      · exact hsilent rfl h
  | wake needsWork =>
      simp only [Responses.step]
      split
      · exact hsilent (wake_sent s needsWork)
          (h.quiet (quiet_wake s needsWork) (ready_wake h.nodup needsWork))
      · exact hsilent rfl h
  | steer text =>
      refine hsilent rfl (h.elsewhere ?_ rfl)
      exact .same rfl rfl rfl (fun _ h => .inl h) fun stream h hlive => ⟨stream, h, hlive, rfl⟩
  | notifyFact value =>
      refine hsilent rfl (h.elsewhere ?_ rfl)
      exact .same rfl rfl rfl (fun _ h => .inl h) fun stream h hlive => ⟨stream, h, hlive, rfl⟩
  | toolDone callId output => exact hsilent rfl (h.elsewhere (quiet_toolDone s callId output) rfl)
  | takeMessage =>
      have hplace : s.takeMessage.place = s.place := by
        unfold State.takeMessage
        split <;> rfl
      exact hsilent rfl (h.elsewhere (quiet_takeMessage s) hplace)
  | takeOrphan =>
      have hplace : s.takeOrphan.place = s.place := by
        unfold State.takeOrphan
        split <;> rfl
      exact hsilent rfl (h.elsewhere (quiet_takeOrphan s) hplace)
  | takeEvent =>
      have hplace : s.takeEvent.place = s.place := by
        unfold State.takeEvent
        split <;> rfl
      exact hsilent rfl (h.elsewhere (quiet_takeEvent s) hplace)
  | prepare context => exact hsilent rfl (h.quiet (quiet_prepare s context) (ready_prepare h.ready context))
  | settle => exact hsilent rfl (h.quiet (quiet_settle s) (ready_settle h.ready))
  | request summary => exact h.request summary
  | fail => exact hsilent rfl (h.quiet (quiet_fail s) (ready_fail h.ready))
  | receive e => exact hsilent rfl (h.receive e hfresh)
  | endStream =>
      have hplace : s.endStream.place = s.place := by
        unfold State.endStream
        split
        · rfl
        · split <;> rfl
      exact hsilent rfl (h.elsewhere (quiet_endStream s) hplace)
  | proceed => exact hsilent rfl (h.quiet (quiet_proceed s) (ready_proceed h.ready))
  | cancel => exact hsilent rfl (h.quiet (quiet_cancel s) (ready_cancel h.ready))

end

theorem Kept.start : Kept [] {} where
  sane := ⟨List.nodup_nil, List.nodup_nil, fun _ h => h, fun _ h => (by cases h), fun _ h => (by cases h)⟩
  nodup := List.nodup_nil
  sent _ h := by cases h
  known _ h := by rcases h with h | h <;> cases h
  snapshot _ h := by cases h
  stream _ h := by cases h
  ready := trivial

theorem givenOutputs_append (log : Log) (e : Act × Output) :
    givenOutputs (log ++ [e]) = givenOutputs log ++ addedOutputs e := by
  rw [givenOutputs, givenOutputs, List.flatMap_append, List.flatMap_singleton]

theorem kept_of_run {log : Log} {s : State}
    (h : Run step (fun _ s a => Fresh s a) {} log s) : Kept (givenOutputs log) s :=
  h.invariant (P := fun log s => Kept (givenOutputs log) s) .start fun log s a _ hfresh hkept => by
    rw [givenOutputs_append]
    exact (hkept.step a hfresh).2

/-- **Every request is well formed**: calls, outputs and ids are not repeated, the
last snapshot is the one given, and an output follows its call, unless it has
been sent before and a compaction has absorbed the call. -/
theorem requests_well_formed {pre post : Log} {s : State} {a : Act} {o : Output} {r : Request}
    (h : Run step (fun _ s a => Fresh s a) {} (pre ++ (a, o) :: post) s) (hsent : o.sent = some r) :
    WellFormed (givenOutputs pre) r := by
  obtain ⟨s₁, hpre, hpost⟩ := h.split
  obtain ⟨rfl, hfresh, -⟩ := hpost.head
  exact ((kept_of_run hpre).step a hfresh).1 r hsent

/-! ### A compaction between a call and its output -/

/-- Enough for `Fresh`: an id is new, and a terminal brings nothing. -/
def fresh (_log : Log) (s : State) : Act → Bool
  | .receive (.itemDone m) => m.key.all fun key => key ∉ producedKeys s.history ∧ key ∉ s.ids
  | .receive (.terminal _ output) => output.isEmpty
  | _ => true

theorem fresh_spec {log : Log} {s : State} {a : Act} (h : fresh log s a = true) : Fresh s a := by
  cases a with
  | receive e =>
      cases e with
      | itemDone m =>
          intro _ key hkey
          have hnew := (Option.all_eq_true _ _).mp h key hkey
          simpa using hnew
      | terminal kind output =>
          intro stream _ _
          obtain rfl : output = [] := List.isEmpty_iff.mp h
          exact ⟨(fun m hmem => by cases hmem), (fun m hmem => by cases hmem), List.nodup_nil⟩
      | _ => trivial
  | _ => trivial

def mineCall : ToolCall := { callId := "a", name := "mine", arguments := "\x7b\x7d" }

/-- The compaction item follows the call; its output comes with the next request. -/
def compactedChat : List Act :=
  [.run "go" none false, .prepare none, .settle, .request none, .receive .created,
    .receive (.itemDone (.call mineCall)), .receive (.itemDone (.compaction none "opaque")),
    .receive (.terminal .completed []), .takeEvent, .wake false, .takeEvent, .wake false, .takeEvent,
    .wake false, .toolDone "a" "ok", .takeEvent, .wake false, .prepare none, .settle, .request none,
    .receive .created, .receive (.terminal .completed []), .takeEvent, .wake false, .takeEvent,
    .wake false, .proceed, .proceed, .proceed, .run "next" none false, .prepare none, .settle]

/-- The request that follows. -/
def nextRequest : Request :=
  ⟨[.user "next"], [.produced (.compaction none "opaque"), .callOutput "a" "ok", .user "next"], ""⟩

theorem run_compactedChat :
    Run step (fun _ s a => Fresh s a) {} ([] ++ (exec step {} compactedChat).1)
      (exec step {} compactedChat).2 :=
  Run.of_passes .start (fun _ _ _ => fresh_spec)
    (by decide +kernel : passes step fresh [] {} compactedChat = true)

theorem sent_nextRequest :
    (step (exec step {} compactedChat).2 (.request none)).1.sent = some nextRequest := by
  decide +kernel

theorem requests_well_formed_next :
    WellFormed (givenOutputs ([] ++ (exec step {} compactedChat).1)) nextRequest :=
  requests_well_formed (run_compactedChat.next (Act.request none) trivial) sent_nextRequest

/-- The output of the call is sent without the call. -/
theorem output_without_call : ∃ log s o r,
    Run step (fun _ s a => Fresh s a) {} (log ++ [(.request none, o)]) s ∧ o.sent = some r ∧
      ¬ ∀ callId ∈ outputIds r.full, Preceded r.full callId := by
  refine ⟨_, _, _, nextRequest, run_compactedChat.next (Act.request none) trivial, sent_nextRequest, ?_⟩
  intro h
  have hcall := h "a" (by decide) [.produced (.compaction none "opaque")] "ok" [.user "next"] rfl
  cases hcall

end Responses

end MineBot
