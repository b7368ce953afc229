import Mathlib
import MineBot.ResponsesRequests

/-!
# What the model does has its effect once

A call of the model gets one tool task, and a message is spoken once, whether it
comes with its own event, again with the terminal, or is found in the history of
a later run. `Told` counts both.

A later run looks at the calls of the history again, but not at its messages:
what a message says is lost with the event that brings it when a run is left
before the event is read. `effects_once` is about the runs that are left with no
such event unread.
-/

namespace MineBot

namespace Responses

/-! ## What was done -/

def dispatchedIds (log : Log) : List String := log.flatMap fun e => e.2.dispatched

/-- The ids of the messages spoken. -/
def Output.saidIds (o : Output) : List String := o.spoken.filterMap Prod.fst

def saidIds (log : Log) : List String := log.flatMap fun e => e.2.saidIds

/-- The id of a message that says something. -/
def ModelItem.saying? : ModelItem → Option String
  | .message (some id) content => if messageText content = "" then none else some id
  | _ => none

/-- The item is the one its id names. -/
def Named (name : String → ModelItem) (m : ModelItem) : Prop :=
  ∀ key, m.key = some key → name key = m

/-- The message that the id names says something. -/
def utters (name : String → ModelItem) (id : String) : Bool := (name id).saying? = some id

/-- Calls and messages have names, and what has been done about them is recorded. -/
structure Told (name : String → ModelItem) (said dispatched : List String) (s : State) : Prop where
  history : ∀ m, .produced m ∈ s.history → Named name m
  unread : ∀ e ∈ s.unread, ∀ m ∈ e.items, Named name m
  calls : ∀ c ∈ s.calls, name c.callId = .call c.toToolCall
  dispatched : dispatched = s.ids
  nodup : s.ids.Nodup
  said : said = s.spoken.filter (utters name)
  spoken : s.spoken.Nodup

section

variable {name : String → ModelItem} {said dispatched : List String} {s s' s'' : State}
variable {m : ModelItem} {t : Turn} {text : String} {limit : Option Nat}

/-! ## Observing -/

/-- Calls and messages that are known stay known. -/
structure Grows (s s' : State) : Prop where
  ids : ∀ callId ∈ s.ids, callId ∈ s'.ids
  spoken : ∀ id ∈ s.spoken, id ∈ s'.spoken

theorem Grows.refl (s : State) : Grows s s := ⟨fun _ => id, fun _ => id⟩

theorem Grows.trans (h : Grows s s') (h' : Grows s' s'') : Grows s s'' :=
  ⟨fun callId hmem => h'.ids callId (h.ids callId hmem),
    fun id hmem => h'.spoken id (h.spoken id hmem)⟩

/-- The call has its task. -/
def HasTask (m : ModelItem) (s : State) : Prop := ∀ c, m = .call c → c.callId ∈ s.ids

/-- The message has been heard. -/
def Heard (m : ModelItem) (s : State) : Prop := ∀ id, m.saying? = some id → id ∈ s.spoken

theorem HasTask.grows (h : HasTask m s) (hg : Grows s s') : HasTask m s' :=
  fun c hc => hg.ids _ (h c hc)

theorem Heard.grows (h : Heard m s) (hg : Grows s s') : Heard m s' :=
  fun id hid => hg.spoken id (h id hid)

/-- A stretch of the loop that has told all it did, and has not raised. -/
structure Telling (name : String → ModelItem) (said dispatched : List String) (t : Turn) :
    Prop where
  told : Told name (said ++ t.out.saidIds) (dispatched ++ t.out.dispatched) t.state
  raised : t.raised = false

theorem agrees_self (c d : ToolCall) (h : c = d) : c.agrees d = true := by
  rw [h]
  simp [ToolCall.agrees]

theorem Telling.dispatch (h : Telling name said dispatched t) (hm : Named name m) :
    Telling name said dispatched (t.dispatch m) ∧ Grows t.state (t.dispatch m).state ∧
      HasTask m (t.dispatch m).state := by
  unfold Turn.dispatch
  split
  · next c =>
      have hname : name c.callId = .call c := hm c.callId rfl
      split
      · next old hfind =>
          have hold : old.callId = c.callId := by simpa using List.find?_some hfind
          have hmem := List.mem_of_find?_eq_some hfind
          have hcall : old.toToolCall = c := by
            have hnamed := h.told.calls old hmem
            rw [hold, hname] at hnamed
            exact (ModelItem.call.inj hnamed).symm
          rw [if_pos (agrees_self c old.toToolCall hcall.symm)]
          refine ⟨h, .refl _, fun c' hc' => ?_⟩
          obtain rfl := ModelItem.call.inj hc'
          exact hold ▸ List.mem_map_of_mem hmem
      · next hnone =>
          have hfresh : c.callId ∉ t.state.ids := by
            intro hmem
            obtain ⟨c', hmem', hid⟩ := List.mem_map.mp hmem
            have := List.find?_eq_none.mp hnone c' hmem'
            simp [hid] at this
          have hids : ({ t.state with calls := t.state.calls ++ [{ toToolCall := c }] } :
              State).ids = t.state.ids ++ [c.callId] := by simp [State.ids]
          refine ⟨⟨⟨h.told.history, h.told.unread, fun c' hmem => ?_, ?_, ?_, h.told.said,
            h.told.spoken⟩, h.raised⟩, ⟨fun callId hmem => ?_, fun _ => id⟩, fun c' hc' => ?_⟩
          · rcases List.mem_append.mp hmem with hmem | hmem
            · exact h.told.calls c' hmem
            · rw [List.mem_singleton.mp hmem]
              exact hname
          · rw [hids, ← h.told.dispatched, List.append_assoc]
          · rw [hids]
            exact List.nodup_append'.mpr ⟨h.told.nodup, List.nodup_singleton _,
              List.disjoint_singleton.mpr hfresh⟩
          · rw [hids]
            exact List.mem_append_left _ hmem
          · obtain rfl := ModelItem.call.inj hc'
            rw [hids]
            exact List.mem_append_right _ (List.mem_singleton_self _)
  · next hcall => exact ⟨h, .refl _, fun c hc => absurd hc (hcall c)⟩

theorem saidIds_say (t : Turn) (id : String) (text : String) :
    (t.say (some id) text).out.saidIds =
      t.out.saidIds ++ (if text = "" then [] else [id]) := by
  unfold Turn.say
  split
  · rw [List.append_nil]
  · rw [Output.saidIds, Output.saidIds, List.filterMap_append]
    rfl

theorem Telling.hear (h : Telling name said dispatched t) (hm : Named name m) :
    Telling name said dispatched (t.hear m) ∧ Grows t.state (t.hear m).state ∧
      Heard m (t.hear m).state := by
  unfold Turn.hear
  split
  · next id content =>
      have hname : name id = .message (some id) content := hm id rfl
      split
      · next hspoken =>
          refine ⟨h, .refl _, fun id' hid' => ?_⟩
          rw [ModelItem.saying?] at hid'
          split at hid'
          · cases hid'
          · exact Option.some.inj hid' ▸ hspoken
      · next hnew =>
          have hstate : ∀ (t : Turn) text, (t.say (some id) text).state = t.state := by
            intro t text
            unfold Turn.say
            split <;> rfl
          have hraised : ∀ (t : Turn) text, (t.say (some id) text).raised = t.raised := by
            intro t text
            unfold Turn.say
            split <;> rfl
          have hdispatched : ∀ (t : Turn) text,
              (t.say (some id) text).out.dispatched = t.out.dispatched := by
            intro t text
            unfold Turn.say
            split <;> rfl
          have hutters : utters name id = decide (messageText content ≠ "") := by
            rw [utters, hname, ModelItem.saying?]
            by_cases htext : messageText content = "" <;> simp [htext]
          refine ⟨⟨?_, ?_⟩, ?_, ?_⟩
          · rw [hstate, hdispatched, saidIds_say]
            refine ⟨h.told.history, h.told.unread, h.told.calls, h.told.dispatched, h.told.nodup,
              ?_, ?_⟩
            · rw [List.filter_append, ← h.told.said, List.append_assoc]
              congr 2
              by_cases htext : messageText content = "" <;> simp [hutters, htext]
            · exact List.nodup_append'.mpr ⟨h.told.spoken, List.nodup_singleton _,
                List.disjoint_singleton.mpr hnew⟩
          · rw [hraised]
            exact h.raised
          · rw [hstate]
            exact ⟨fun _ hmem => hmem, fun id' hmem => List.mem_append_left _ hmem⟩
          · rw [hstate]
            intro id' hid'
            rw [ModelItem.saying?] at hid'
            split at hid'
            · cases hid'
            · exact Option.some.inj hid' ▸ List.mem_append_right _ (List.mem_singleton_self _)
  · next content =>
      have hsay : t.say none (messageText content) = t ∨ t.say none (messageText content) =
          { t with out := { t.out with
            spoken := t.out.spoken ++ [(none, messageText content)] } } := by
        unfold Turn.say
        split
        · exact .inl rfl
        · exact .inr rfl
      rcases hsay with heq | heq
      · rw [heq]
        exact ⟨h, .refl _, fun id hid => by cases hid⟩
      · rw [heq]
        have hids : Output.saidIds { t.out with
            spoken := t.out.spoken ++ [(none, messageText content)] } = t.out.saidIds := by
          rw [Output.saidIds, Output.saidIds, List.filterMap_append]
          exact List.append_nil _
        refine ⟨⟨?_, h.raised⟩, .refl _, fun id hid => by cases hid⟩
        rw [hids]
        exact h.told
  · next hmessage hnone =>
      refine ⟨h, .refl _, fun id hid => ?_⟩
      cases m with
      | message id content => cases id <;> simp_all
      | _ => cases hid

theorem Telling.observeItem (h : Telling name said dispatched t) (hm : Named name m) :
    Telling name said dispatched (t.observeItem m) ∧ Grows t.state (t.observeItem m).state ∧
      HasTask m (t.observeItem m).state ∧ Heard m (t.observeItem m).state := by
  obtain ⟨hdispatch, hgrows, htask⟩ := h.dispatch hm
  obtain ⟨hhear, hgrows', hheard⟩ := hdispatch.hear hm
  unfold Turn.observeItem
  rw [if_neg (by rw [hdispatch.raised]; exact Bool.false_ne_true)]
  exact ⟨hhear, hgrows.trans hgrows', htask.grows hgrows', hheard⟩

/-- What is done about one item of a loop is done about all. -/
theorem Telling.each {f : Turn → ModelItem → Turn} {P : ModelItem → State → Prop}
    (hf : ∀ {t : Turn} {m : ModelItem}, Telling name said dispatched t → Named name m →
      Telling name said dispatched (f t m) ∧ Grows t.state (f t m).state ∧ P m (f t m).state)
    (hP : ∀ {m : ModelItem} {s s' : State}, P m s → Grows s s' → P m s')
    (h : Telling name said dispatched t) {ms : List ModelItem} (hms : ∀ m ∈ ms, Named name m) :
    Telling name said dispatched (t.each f ms) ∧ Grows t.state (t.each f ms).state ∧
      ∀ m ∈ ms, P m (t.each f ms).state := by
  induction ms generalizing t with
  | nil => exact ⟨h, .refl _, fun m hmem => by cases hmem⟩
  | cons m ms ih =>
      obtain ⟨hone, hgrows, hdone⟩ := hf h (hms m List.mem_cons_self)
      obtain ⟨hall, hgrows', hrest⟩ := ih hone fun m' hmem => hms m' (List.mem_cons_of_mem _ hmem)
      unfold Turn.each
      rw [if_neg (by rw [hone.raised]; exact Bool.false_ne_true)]
      refine ⟨hall, hgrows.trans hgrows', fun m' hmem => ?_⟩
      rcases List.mem_cons.mp hmem with rfl | hmem
      · exact hP hdone hgrows'
      · exact hrest m' hmem

/-! ## What other steps leave alone -/

/-- Neither the end of a response nor an item. -/
def Event.spent : Event → Bool
  | .itemDone _ | .terminal .. => false
  | _ => true

def Event.isTerminal : Event → Bool
  | .terminal .. => true
  | _ => false

theorem items_of_spent {e : Event} (h : e.spent) : e.items = [] := by
  cases e <;> first | rfl | cases h

theorem not_terminal_of_spent {e : Event} (h : e.spent) : e.isTerminal = false := by
  cases e <;> first | rfl | cases h

/-- Nothing is observed; unread events may be lost. -/
structure Still (s s' : State) : Prop where
  history : s'.history = s.history
  calls : s'.calls.map PendingCall.toToolCall = s.calls.map PendingCall.toToolCall
  spoken : s'.spoken = s.spoken
  unread : ∃ es, s'.unread.Sublist (s.unread ++ es) ∧ ∀ e ∈ es, e.spent

theorem Still.of_unread (hhistory : s'.history = s.history) (hcalls : s'.calls = s.calls)
    (hspoken : s'.spoken = s.spoken) (hunread : s'.unread.Sublist s.unread) : Still s s' where
  history := hhistory
  calls := by rw [hcalls]
  spoken := hspoken
  unread := ⟨[], by rwa [List.append_nil], fun e he => by cases he⟩

theorem Still.refl (s : State) : Still s s := .of_unread rfl rfl rfl (.refl _)

theorem Still.trans (h : Still s s') (h' : Still s' s'') : Still s s'' where
  history := h'.history.trans h.history
  calls := h'.calls.trans h.calls
  spoken := h'.spoken.trans h.spoken
  unread := by
    obtain ⟨es, hsub, hes⟩ := h.unread
    obtain ⟨es', hsub', hes'⟩ := h'.unread
    refine ⟨es ++ es', ?_, fun e he => (List.mem_append.mp he).elim (hes e) (hes' e)⟩
    rw [← List.append_assoc]
    exact hsub'.trans (hsub.append_right es')

theorem ids_eq (s : State) : s.ids = (s.calls.map PendingCall.toToolCall).map ToolCall.callId := by
  rw [State.ids, List.map_map]
  rfl

theorem Told.still (h : Told name said dispatched s) (hs : Still s s') :
    Told name said dispatched s' := by
  have hids : s'.ids = s.ids := by rw [ids_eq, ids_eq, hs.calls]
  refine ⟨?_, ?_, ?_, hids ▸ h.dispatched, hids ▸ h.nodup, hs.spoken ▸ h.said, hs.spoken ▸ h.spoken⟩
  · rw [hs.history]
    exact h.history
  · intro e he m hm
    obtain ⟨es, hsub, hes⟩ := hs.unread
    rcases List.mem_append.mp (hsub.subset he) with he | he
    · exact h.unread e he m hm
    · rw [items_of_spent (hes e he)] at hm
      cases hm
  · intro c hc
    have hmem : c.toToolCall ∈ s.calls.map PendingCall.toToolCall :=
      hs.calls ▸ List.mem_map_of_mem hc
    obtain ⟨c', hc', heq⟩ := List.mem_map.mp hmem
    rw [← heq]
    exact h.calls c' hc'

theorem still_afterExit (s : State) : Still s s.afterExit :=
  .of_unread rfl rfl rfl (List.Sublist.append_left (List.nil_sublist _) _)

theorem still_cleanup (s : State) : Still s s.cleanup := by
  unfold State.cleanup
  split
  · exact .of_unread rfl rfl rfl (.refl _)
  · exact .of_unread rfl rfl rfl (List.sublist_append_right _ _)

theorem still_interrupt (s : State) : Still s s.interrupt := by
  unfold State.interrupt
  split
  · exact .of_unread rfl rfl rfl (.refl _)
  · exact (still_afterExit s).trans (still_cleanup _)

theorem still_create (s : State) (inputs : List Item) : Still s (s.create inputs) := by
  unfold State.create
  split
  · exact still_interrupt s
  · exact .of_unread rfl rfl rfl (.refl _)

theorem still_loopTop (s : State) (needsWork : Bool) : Still s (s.loopTop needsWork).1 := by
  unfold State.loopTop
  split
  · exact .of_unread rfl rfl rfl (.refl _)
  · split
    · exact still_create s _
    · split
      · split
        · have hqueued : Still s { s with queued := s.queued ++ [nudge] } :=
            .of_unread rfl rfl rfl (.refl _)
          exact hqueued.trans (still_create _ _)
        · exact still_cleanup s
      · exact .of_unread rfl rfl rfl (.refl _)

theorem still_readMessage (s : State) : Still s s.readMessage := by
  unfold State.readMessage
  split
  · exact .of_unread rfl rfl rfl (.refl _)
  · exact .refl s

theorem still_resume (t : Turn) (needsWork : Bool) : Still t.state (t.resume needsWork).state := by
  unfold Turn.resume
  split
  · exact still_interrupt t.state
  · exact still_loopTop t.state needsWork

theorem still_proceed (s : State) : Still s s.proceed := by
  unfold State.proceed
  split
  · exact (still_afterExit s).trans (still_cleanup _)
  · exact .of_unread rfl rfl rfl (.refl _)
  · exact .of_unread rfl rfl rfl (.refl _)
  · exact .of_unread rfl rfl rfl (.refl _)
  · exact .refl s

theorem still_cancel (s : State) : Still s s.cancel := by
  unfold State.cancel
  split
  · exact .refl s
  · exact still_interrupt s
  · exact still_interrupt s
  · exact still_interrupt s
  · exact still_interrupt s
  · exact still_cleanup s
  · exact .of_unread rfl rfl rfl (.refl _)
  · exact .of_unread rfl rfl rfl (.refl _)
  · exact .of_unread rfl rfl rfl (.refl _)

theorem still_fail (s : State) : Still s s.fail := by
  unfold State.fail
  split
  · exact still_interrupt s
  · exact still_interrupt s
  · exact still_interrupt s
  · exact .refl s

theorem still_prepare (s : State) (context : Option String) : Still s (s.prepare context) := by
  unfold State.prepare
  split
  · exact .of_unread rfl rfl rfl (.refl _)
  · exact .refl s

theorem still_settle (s : State) : Still s s.settle := by
  unfold State.settle
  split
  · split
    · exact still_interrupt s
    · exact .of_unread rfl rfl rfl (.refl _)
  · exact .refl s

theorem still_takeMessage (s : State) : Still s s.takeMessage := by
  unfold State.takeMessage
  split
  · exact .of_unread rfl rfl rfl (.refl _)
  · exact .refl s

theorem still_takeOrphan (s : State) : Still s s.takeOrphan := by
  unfold State.takeOrphan
  split
  · exact .of_unread rfl rfl rfl (.refl _)
  · exact .refl s

theorem unread_takeEvent (s : State) : s.takeEvent.unread = s.unread := by
  unfold State.takeEvent
  split
  · next e es hreader hevents =>
      rw [State.unread, State.unread, hreader, hevents]
      rfl
  · rfl

theorem still_takeEvent (s : State) : Still s s.takeEvent := by
  have hunread := unread_takeEvent s
  revert hunread
  unfold State.takeEvent
  split
  · exact fun hunread => .of_unread rfl rfl rfl (hunread ▸ .refl _)
  · exact fun _ => .refl s

theorem still_toolDone (s : State) (callId output : String) : Still s (s.toolDone callId output) where
  history := rfl
  calls := by
    rw [State.toolDone, List.map_map]
    refine List.map_congr_left fun c _ => ?_
    rw [Function.comp_apply]
    split <;> rfl
  spoken := rfl
  unread := ⟨[], by rw [List.append_nil]; exact .refl _, fun e he => by cases he⟩

theorem still_endStream (s : State) : Still s s.endStream := by
  unfold State.endStream
  split
  · exact .refl s
  · split
    · exact .refl s
    · refine ⟨rfl, rfl, rfl, [.failure], ?_, fun e he => List.mem_singleton.mp he ▸ rfl⟩
      rw [State.unread, State.unread, List.append_assoc]
      refine List.Sublist.append_left ?_ _
      split
      · exact List.sublist_append_left _ _
      · exact .refl _

/-! ## Reading events and starting a run -/

theorem Told.telling (h : Told name said dispatched s) :
    Telling name said dispatched { state := s } where
  told := by
    have hnil : Output.saidIds {} = [] := rfl
    rw [hnil, List.append_nil, List.append_nil]
    exact h
  raised := rfl

theorem mem_unread_reader {e : Event} (h : s.reader = .done e) : e ∈ s.unread := by
  rw [State.unread, h]
  exact List.mem_cons_self

theorem still_reader (s : State) (active : Bool) : Still s { s with reader := .waiting, active } :=
  .of_unread rfl rfl rfl (List.sublist_append_right _ _)

/-- What was read is told, and its messages have been heard. -/
structure Reads (name : String → ModelItem) (said dispatched : List String) (s : State) (t : Turn) :
    Prop where
  told : Told name (said ++ t.out.saidIds) (dispatched ++ t.out.dispatched) t.state
  spoken : ∀ id ∈ s.spoken, id ∈ t.state.spoken
  heard : ∀ e, s.reader = .done e → ∀ m ∈ e.items, Heard m t.state

theorem Told.reads (h : Told name said dispatched s) : Reads name said dispatched s s.readEvent := by
  have hstill : ∀ {s' : State}, Still s s' → (∀ e, s.reader = .done e → e.items = []) →
      ∀ raised, Reads name said dispatched s { state := s', raised } := by
    intro s' hs hitems raised
    refine ⟨(h.still hs).telling.told, fun id hid => hs.spoken ▸ hid, fun e he m hm => ?_⟩
    rw [hitems e he] at hm
    cases hm
  unfold State.readEvent
  split
  · next hreader =>
      have hcalls : (s.calls.map fun c => if c.callId ∈ s.submitted then
          { c with delivered := true } else c).map PendingCall.toToolCall =
            s.calls.map PendingCall.toToolCall := by
        rw [List.map_map]
        refine List.map_congr_left fun c _ => ?_
        rw [Function.comp_apply]
        split <;> rfl
      have hs : Still s { s with
          reader := .waiting
          calls := s.calls.map fun c =>
            if c.callId ∈ s.submitted then { c with delivered := true } else c
          submitted := [], active := true } :=
        ⟨rfl, hcalls, rfl, (still_reader s true).unread⟩
      exact hstill hs (fun e he => by cases hreader.symm.trans he; rfl) false
  · next m hreader =>
      have hm := h.unread _ (mem_unread_reader hreader) m (List.mem_singleton_self m)
      obtain ⟨htelling, hgrows, -, hheard⟩ :=
        (h.still (still_reader s s.active)).telling.observeItem hm
      refine ⟨htelling.told, hgrows.spoken, fun e he m' hm' => ?_⟩
      cases hreader.symm.trans he
      rw [List.mem_singleton.mp hm']
      exact hheard
  · next kind output hreader =>
      have hms := h.unread _ (mem_unread_reader hreader)
      obtain ⟨htelling, hgrows, hheard⟩ :=
        (h.still (still_reader s false)).telling.each (P := Heard)
          (fun ht hm => ⟨(ht.observeItem hm).1, (ht.observeItem hm).2.1, (ht.observeItem hm).2.2.2⟩)
          Heard.grows hms
      refine ⟨htelling.told, hgrows.spoken, fun e he => ?_⟩
      cases hreader.symm.trans he
      exact hheard
  · next hreader =>
      exact hstill (still_reader s s.active) (fun e he => by cases hreader.symm.trans he; rfl) true
  · next hreader =>
      exact hstill (still_reader s s.active) (fun e he => by cases hreader.symm.trans he; rfl) false
  · next hreader => exact hstill (.refl s) (fun e he => by cases hreader.symm.trans he; rfl) true
  · next hcreated hitem hterminal herror hother hfailure =>
      refine hstill (.refl s) (fun e he => ?_) false
      cases e with
      | itemDone m => exact absurd he (hitem m)
      | terminal kind output => exact absurd he (hterminal kind output)
      | _ => rfl

theorem resume_out (t : Turn) (needsWork : Bool) : (t.resume needsWork).out.saidIds = t.out.saidIds ∧
    (t.resume needsWork).out.dispatched = t.out.dispatched := by
  unfold Turn.resume
  split <;> exact ⟨rfl, rfl⟩

theorem Told.resume (h : Told name (said ++ t.out.saidIds) (dispatched ++ t.out.dispatched) t.state)
    (needsWork : Bool) :
    Told name (said ++ (t.resume needsWork).out.saidIds)
      (dispatched ++ (t.resume needsWork).out.dispatched) (t.resume needsWork).state := by
  obtain ⟨hsaid, hdispatched⟩ := resume_out t needsWork
  rw [hsaid, hdispatched]
  exact h.still (still_resume t needsWork)

theorem Told.wake (h : Told name said dispatched s) (needsWork : Bool) :
    Told name (said ++ (s.wake needsWork).out.saidIds)
      (dispatched ++ (s.wake needsWork).out.dispatched) (s.wake needsWork).state := by
  have hread := h.reads.told
  unfold State.wake
  split
  · exact hread.resume needsWork
  · have hmessage := hread.still (still_readMessage s.readEvent.state)
    exact Told.resume (t := { s.readEvent with state := s.readEvent.state.readMessage }) hmessage
      needsWork

theorem mem_produced : m ∈ s.produced ↔ .produced m ∈ s.history := by
  rw [State.produced, List.mem_filterMap]
  constructor
  · rintro ⟨item, hmem, hitem⟩
    cases item with
    | produced m' => exact Option.some.inj hitem ▸ hmem
    | _ => cases hitem
  · exact fun hmem => ⟨_, hmem, rfl⟩

/-- A later run finds the calls of the history, and gives each its task. -/
theorem Told.redispatch (h : Told name said dispatched s) (text : String) (limit : Option Nat) :
    Telling name said dispatched (s.redispatch text limit) ∧
      Grows s (s.redispatch text limit).state ∧
        ∀ m, .produced m ∈ s.history → HasTask m (s.redispatch text limit).state := by
  have hstart : Still s { s with
      queued := s.queued ++ (if text = "" then [] else [text]), responsesLeft := limit } :=
    .of_unread rfl rfl rfl (.refl _)
  obtain ⟨htelling, hgrows, htask⟩ := (h.still hstart).telling.each (P := HasTask)
    (fun ht hm => ht.dispatch hm) HasTask.grows
    (fun m hmem => h.history m (mem_produced.mp hmem))
  exact ⟨htelling, ⟨hgrows.ids, hgrows.spoken⟩, fun m hmem => htask m (mem_produced.mpr hmem)⟩

theorem run_eq (h : (s.redispatch text limit).raised = false) (needsWork : Bool) :
    s.run text limit needsWork = Turn.resume
      { s.redispatch text limit with
        state := { (s.redispatch text limit).state with reader := .waiting, message := .waiting } }
      needsWork := by
  unfold State.run
  rw [if_neg (by rw [h]; exact Bool.false_ne_true)]

/-! ## The stream and its events -/

/-- No item comes after a terminal, and none is unread when no response is active. -/
structure Streamed (s : State) : Prop where
  order : s.unread.Pairwise fun e e' => e.isTerminal → e'.spent
  ended : ∀ e ∈ s.unread, e.isTerminal → s.live = false
  inactive : s.active = false → (∀ e ∈ s.unread, e.spent) ∧ s.live = false
  closed : s.stream = none → ∀ e ∈ s.unread, e.spent

/-- What stands at the place the run is at. -/
def Standing (s : State) : Prop :=
  match s.place with
  | .preparing inputs | .settling inputs _ => s.active = false ∧ ∀ item ∈ inputs, item.isInput
  | .counting _ _ full _ => s.active = false ∧ ∀ m, .produced m ∈ full → .produced m ∈ s.history
  | .waiting => True
  | .exiting | .idle | .cleaningReader | .cleaningMessage | .cleaningFact => s.live = false

structure Stands (s : State) : Prop where
  streamed : Streamed s
  standing : Standing s

theorem Streamed.still (h : Streamed s) (hs : Still s s') (hactive : s'.active = s.active)
    (hlive : s.live = false → s'.live = false) (hstream : s'.stream = none → s.stream = none) :
    Streamed s' := by
  obtain ⟨es, hsub, hes⟩ := hs.unread
  have hold : ∀ e ∈ s'.unread, e ∈ s.unread ∨ e.spent := fun e he =>
    (List.mem_append.mp (hsub.subset he)).imp_right (hes e)
  refine ⟨?_, fun e he hterminal => ?_, fun hinactive => ?_, fun hnone e he => ?_⟩
  · refine List.Pairwise.sublist hsub (List.pairwise_append.mpr ⟨h.order, ?_, ?_⟩)
    · exact List.pairwise_of_forall_mem_list fun e _ e' he' _ => hes e' he'
    · exact fun e _ e' he' _ => hes e' he'
  · rcases hold e he with he | hspent
    · exact hlive (h.ended e he hterminal)
    · rw [not_terminal_of_spent hspent] at hterminal
      cases hterminal
  · obtain ⟨hspent, hdead⟩ := h.inactive (hactive ▸ hinactive)
    exact ⟨fun e he => (hold e he).elim (hspent e) fun hspent => hspent, hlive hdead⟩
  · exact (hold e he).elim (h.closed (hstream hnone) e) fun hspent => hspent

theorem live_of_none (h : s.stream = none) : s.live = false := by
  rw [State.live, h]
  rfl

theorem Streamed.cleanup (h : Streamed s) (hdead : s.live = false) : Stands s.cleanup := by
  have hs := still_cleanup s
  revert hs
  unfold State.cleanup
  split
  · exact fun hs => ⟨h.still hs rfl (fun hlive => hlive) fun hnone => hnone, hdead⟩
  · exact fun hs => ⟨h.still hs rfl (fun hlive => hlive) fun hnone => hnone, hdead⟩

theorem unread_leave (s : State) : s.afterExit.cleanup.unread = [] := by
  unfold State.cleanup
  split
  · next h => exact unread_of_absent h
  · rfl

theorem stream_leave (s : State) : s.afterExit.cleanup.stream = none := by
  unfold State.cleanup
  split <;> rfl

/-- The connection is closed, and its events are gone. -/
theorem stands_leave (s : State) : Stands s.afterExit.cleanup := by
  have hempty := unread_leave s
  have hdead := live_of_none (stream_leave s)
  refine ⟨⟨?_, ?_, fun _ => ⟨?_, hdead⟩, fun _ => ?_⟩, ?_⟩
  · rw [hempty]
    exact .nil
  · rw [hempty]
    exact fun e he => by cases he
  · rw [hempty]
    exact fun e he => by cases he
  · rw [hempty]
    exact fun e he => by cases he
  · revert hdead
    unfold State.cleanup
    split <;> exact fun hdead => hdead

theorem Streamed.interrupt (h : Streamed s) : Stands s.interrupt := by
  have hs := still_interrupt s
  revert hs
  unfold State.interrupt
  split
  · next stream hstream =>
      intro hs
      have hdead : ({ stream with cancelled := !stream.finished } : Stream).live = false := by
        rw [Stream.live]
        cases stream.finished <;> simp
      exact ⟨h.still hs rfl (fun _ => hdead) fun hnone => (by cases hnone), hdead⟩
  · exact fun _ => stands_leave s

theorem Streamed.create {inputs : List Item} (h : Streamed s) (hactive : s.active = false)
    (hinputs : ∀ item ∈ inputs, item.isInput) : Stands (s.create inputs) := by
  unfold State.create
  split
  · exact h.interrupt
  · exact ⟨⟨h.order, h.ended, h.inactive, h.closed⟩, hactive, hinputs⟩

theorem Streamed.loopTop (h : Streamed s) (hnodup : s.ids.Nodup) (needsWork : Bool) :
    Stands (s.loopTop needsWork).1 := by
  unfold State.loopTop
  split
  · exact ⟨⟨h.order, h.ended, h.inactive, h.closed⟩, trivial⟩
  · next hactive =>
      have hinactive : s.active = false := by simpa using hactive
      split
      · exact h.create hinactive (inputs_collect hnodup).kinds
      · split
        · split
          · have hqueued : Streamed { s with queued := s.queued ++ [nudge] } :=
              ⟨h.order, h.ended, h.inactive, h.closed⟩
            exact hqueued.create hinactive
              (inputs_collect (s := { s with queued := s.queued ++ [nudge] }) hnodup).kinds
          · exact h.cleanup (h.inactive hinactive).2
        · exact ⟨⟨h.order, h.ended, h.inactive, h.closed⟩, trivial⟩

theorem Streamed.resume (h : Streamed t.state) (hnodup : t.state.ids.Nodup) (needsWork : Bool) :
    Stands (t.resume needsWork).state := by
  unfold Turn.resume
  split
  · exact h.interrupt
  · exact h.loopTop hnodup needsWork

theorem Streamed.observes {t' : Turn} (h : Streamed t.state) (ho : t.Observes t') :
    Streamed t'.state := by
  obtain ⟨_, _, _, _, _, rfl⟩ := ho
  exact ⟨h.order, h.ended, h.inactive, h.closed⟩

/-- The reader is given up, and waits anew. -/
theorem Streamed.reader (h : Streamed s) (active : Bool) (hactive : active = true ∨ s.active = active) :
    Streamed { s with reader := .waiting, active } := by
  have hsub : s.events.Sublist s.unread := List.sublist_append_right _ _
  refine ⟨h.order.sublist hsub, fun e he => h.ended e (hsub.subset he), fun hinactive => ?_,
    fun hnone e he => h.closed hnone e (hsub.subset he)⟩
  rcases hactive with hactive | hactive
  · cases hactive.symm.trans hinactive
  · obtain ⟨hspent, hdead⟩ := h.inactive (hactive.trans hinactive)
    exact ⟨fun e he => hspent e (hsub.subset he), hdead⟩

theorem Streamed.readEvent (h : Streamed s) : Streamed s.readEvent.state := by
  unfold State.readEvent
  split
  · have hcreated := h.reader true (.inl rfl)
    exact ⟨hcreated.order, hcreated.ended, hcreated.inactive, hcreated.closed⟩
  · next m _ => exact (h.reader _ (.inr rfl)).observes (observes_observeItem _ m)
  · next kind output hreader =>
      have hunread : s.unread = .terminal kind output :: s.events := by
        rw [State.unread, hreader]
        rfl
      have hdead : s.live = false := h.ended _ (mem_unread_reader hreader) rfl
      have horder := h.order
      rw [hunread] at horder
      have hspent : ∀ e ∈ s.events, e.spent := fun e he =>
        (List.pairwise_cons.mp horder).1 e he rfl
      have hread := h.reader true (.inl rfl)
      have hended : Streamed { s with reader := .waiting, active := false } :=
        ⟨hread.order, hread.ended, fun _ => ⟨hspent, hdead⟩, hread.closed⟩
      have hobserved := hended.observes
        (t := { state := { s with reader := .waiting, active := false } })
        (observes_each observes_observeItem _ output)
      exact hobserved
  · exact h.reader _ (.inr rfl)
  · exact h.reader _ (.inr rfl)
  · exact h
  · exact h

/-! ## Every step stands -/

theorem standing_of_same (h : Standing s) (hhistory : s'.history = s.history)
    (hplace : s'.place = s.place) (hactive : s'.active = s.active)
    (hlive : s.live = false → s'.live = false) : Standing s' := by
  unfold Standing at *
  rw [hplace]
  split <;> simp_all

/-- Another party steps in. -/
theorem Stands.beside (h : Stands s) (hs : Still s s')
    (hsame : s'.place = s.place ∧ s'.active = s.active ∧ s'.stream = s.stream) : Stands s' := by
  obtain ⟨hplace, hactive, hstream⟩ := hsame
  have hlive : s.live = false → s'.live = false := fun hdead => by
    rw [State.live, hstream]
    exact hdead
  exact ⟨h.streamed.still hs hactive hlive fun hnone => hstream ▸ hnone,
    standing_of_same h.standing hs.history hplace hactive hlive⟩

theorem Stands.takeMessage (h : Stands s) : Stands s.takeMessage := by
  refine h.beside (still_takeMessage s) ?_
  unfold State.takeMessage
  split <;> exact ⟨rfl, rfl, rfl⟩

theorem Stands.takeOrphan (h : Stands s) : Stands s.takeOrphan := by
  refine h.beside (still_takeOrphan s) ?_
  unfold State.takeOrphan
  split <;> exact ⟨rfl, rfl, rfl⟩

theorem Stands.takeEvent (h : Stands s) : Stands s.takeEvent := by
  refine h.beside (still_takeEvent s) ?_
  unfold State.takeEvent
  split <;> exact ⟨rfl, rfl, rfl⟩

theorem Stands.endStream (h : Stands s) : Stands s.endStream := by
  have hs := still_endStream s
  revert hs
  unfold State.endStream
  split
  · exact fun _ => h
  · next stream hstream =>
      split
      · exact fun _ => h
      · intro hs
        have hdead : ({ stream with cancelled := false, finished := true } : Stream).live = false := by
          simp [Stream.live]
        exact ⟨h.streamed.still hs rfl (fun _ => hdead) fun hnone => (by cases hnone),
          standing_of_same h.standing rfl rfl rfl fun _ => hdead⟩

theorem Stands.prepare (h : Stands s) (context : Option String) : Stands (s.prepare context) := by
  obtain ⟨hstreamed, hstanding⟩ := h
  unfold State.prepare
  split
  · next inputs hp =>
      rw [Standing, hp] at hstanding
      exact ⟨⟨hstreamed.order, hstreamed.ended, hstreamed.inactive, hstreamed.closed⟩, hstanding⟩
  · exact ⟨hstreamed, hstanding⟩

/-- A request adds nothing that the model produced. -/
theorem mem_history_of_added {inputs : List Item} (hinputs : ∀ item ∈ inputs, item.isInput)
    {snapshot : String} (h : .produced m ∈ s.history ++ s.added inputs snapshot) :
    .produced m ∈ s.history := by
  rcases List.mem_append.mp h with h | h
  · exact h
  · rcases List.mem_append.mp h with h | h
    · cases hinputs _ (List.mem_filter.mp h).1
    · cases outputId?_of_snapshots h

theorem Stands.settle (h : Stands s) : Stands s.settle := by
  obtain ⟨hstreamed, hstanding⟩ := h
  unfold State.settle
  split
  · next inputs snapshot hp =>
      split
      · exact hstreamed.interrupt
      · rw [Standing, hp] at hstanding
        obtain ⟨hactive, hinputs⟩ := hstanding
        have hdead : s.live = false →
            (s.stream.map fun stream => { stream with finished := true }).any Stream.live = false := by
          intro _
          cases s.stream with
          | none => rfl
          | some stream => simp [Stream.live]
        refine ⟨hstreamed.still (.of_unread rfl rfl rfl (.refl _)) rfl hdead fun hnone =>
          Option.map_eq_none_iff.mp hnone, hactive, fun m hmem => mem_history_of_added hinputs hmem⟩
  · exact ⟨hstreamed, hstanding⟩

theorem Stands.fail (h : Stands s) : Stands s.fail := by
  unfold State.fail
  split
  · exact h.streamed.interrupt
  · exact h.streamed.interrupt
  · exact h.streamed.interrupt
  · exact h

theorem Stands.place (h : Stands s) {place : Place} (hplace : Standing { s with place }) :
    Stands { s with place } :=
  ⟨⟨h.streamed.order, h.streamed.ended, h.streamed.inactive, h.streamed.closed⟩, hplace⟩

theorem Stands.proceed (h : Stands s) : Stands s.proceed := by
  have hstanding := h.standing
  unfold Standing at hstanding
  unfold State.proceed
  split
  · exact stands_leave s
  · next hp =>
      rw [hp] at hstanding
      exact ⟨⟨h.streamed.order, h.streamed.ended, h.streamed.inactive, h.streamed.closed⟩, hstanding⟩
  · next hp =>
      rw [hp] at hstanding
      exact h.place hstanding
  · next hp =>
      rw [hp] at hstanding
      exact h.place hstanding
  · exact h

theorem Stands.cancel (h : Stands s) : Stands s.cancel := by
  have hstanding := h.standing
  unfold Standing at hstanding
  unfold State.cancel
  split
  · exact h
  · exact h.streamed.interrupt
  · exact h.streamed.interrupt
  · exact h.streamed.interrupt
  · exact h.streamed.interrupt
  · next hp =>
      rw [hp] at hstanding
      exact h.streamed.cleanup hstanding
  · next hp =>
      rw [hp] at hstanding
      exact ⟨⟨h.streamed.order, h.streamed.ended, h.streamed.inactive, h.streamed.closed⟩, hstanding⟩
  · next hp =>
      rw [hp] at hstanding
      exact h.place hstanding
  · next hp =>
      rw [hp] at hstanding
      exact h.place hstanding

/-- All that is unread is spent when a request leaves. -/
theorem Stands.request (h : Stands s) (summary : Option String) : Stands (s.request summary).2 := by
  have hstanding := h.standing
  unfold Standing at hstanding
  unfold State.request
  split
  · next hp =>
      rw [hp] at hstanding
      have hspent := (h.streamed.inactive hstanding.1).1
      refine ⟨⟨h.streamed.order, fun e he hterminal => ?_, fun hinactive => ?_, fun hnone => ?_⟩,
        trivial⟩
      · rw [not_terminal_of_spent (hspent e he)] at hterminal
        cases hterminal
      · cases hinactive
      · cases hnone
  · exact h

/-- Only a run that waits has a live stream. -/
theorem Stands.waiting (h : Stands s) (hlive : s.live) : s.place = .waiting := by
  have hstanding := h.standing
  have hactive : s.active = false → False := fun hinactive => by
    rw [(h.streamed.inactive hinactive).2] at hlive
    cases hlive
  unfold Standing at hstanding
  split at hstanding
  · exact absurd hstanding.1 hactive
  · exact absurd hstanding.1 hactive
  · exact absurd hstanding.1 hactive
  · next hp => exact hp
  all_goals
    rw [hstanding] at hlive
    cases hlive

/-! ## What the stream brings -/

theorem mem_mergeItem {items : List Item} {item : Item} (h : item ∈ mergeItem items m) :
    item ∈ items ∨ item = .produced m := by
  unfold mergeItem at h
  split at h
  · exact List.mem_or_eq_of_mem_set h
  · split at h
    · exact .inl h
    · exact (List.mem_append.mp h).imp_right List.mem_singleton.mp

theorem mem_mergeItems {items : List Item} {output : List ModelItem}
    (h : .produced m ∈ output.foldl mergeItem items) : .produced m ∈ items ∨ m ∈ output := by
  induction output generalizing items with
  | nil => exact .inl h
  | cons m' output ih =>
      rcases ih h with h | h
      · rcases mem_mergeItem h with h | h
        · exact .inl h
        · exact .inr (Item.produced.inj h ▸ List.mem_cons_self)
      · exact .inr (List.mem_cons_of_mem m' h)

theorem mem_mergeOutput {start : Nat} {kind : TerminalKind} {output : List ModelItem}
    (h : .produced m ∈ (s.mergeOutput start kind output).history) :
    .produced m ∈ s.history ∨ m ∈ output := by
  have hmerged : .produced m ∈ (s.mergeHistory start output).history →
      .produced m ∈ s.history ∨ m ∈ output := by
    intro h
    rcases List.mem_append.mp h with h | h
    · exact .inl (List.mem_of_mem_take h)
    · exact (mem_mergeItems h).imp_left List.mem_of_mem_drop
  unfold State.mergeOutput at h
  split at h
  · rcases prune_cases (s.mergeHistory start output) with heq | ⟨before, kept, hhistory, -, -, heq⟩
    · exact hmerged (heq ▸ h)
    · rw [heq] at h
      exact hmerged (hhistory ▸ List.mem_append_right _ h)
  · exact hmerged h

/-- An event that comes in: the history is extended by its items at most. -/
structure Receives (e : Event) (s s' : State) : Prop where
  live : s.live
  history : ∀ m, .produced m ∈ s'.history → .produced m ∈ s.history ∨ m ∈ e.items
  calls : s'.calls = s.calls
  spoken : s'.spoken = s.spoken
  unread : s'.unread = s.unread ++ [e]
  place : s'.place = s.place
  active : s'.active = s.active
  stream : ∃ stream, s'.stream = some stream ∧ stream.live = !e.isTerminal

theorem receive_cases (s : State) (e : Event) : s.receive e = s ∨ Receives e s (s.receive e) := by
  have happend : ∀ xs, s.reader.toList ++ (s.events ++ xs) = s.unread ++ xs := fun xs => by
    rw [State.unread, List.append_assoc]
  unfold State.receive
  split
  · exact .inl rfl
  · next stream hstream =>
      split
      · exact .inl rfl
      · next hdead =>
          have hstreamlive : stream.live := by simpa using hdead
          have hlive : s.live := by
            rw [State.live, hstream]
            exact hstreamlive
          split
          · refine .inr ⟨hlive, fun m hmem => ?_, rfl, rfl, happend _, rfl, rfl, stream, hstream,
              hstreamlive⟩
            refine (List.mem_append.mp hmem).imp_right fun hmem => ?_
            rw [Item.produced.inj (List.mem_singleton.mp hmem)]
            exact List.mem_singleton_self _
          · next kind output =>
              obtain ⟨history, lastSnapshot, heq⟩ :=
                mergeOutput_frame s stream.outputStart kind output
              have hhistory : ∀ m, .produced m ∈ history → .produced m ∈ s.history ∨ m ∈ output :=
                fun m hmem => mem_mergeOutput (by rw [heq]; exact hmem)
              rw [heq]
              refine .inr ⟨hlive, hhistory, rfl, rfl, happend _, rfl, rfl, _, rfl, ?_⟩
              simp [Stream.live, Event.isTerminal]
          · exact .inl rfl
          · next hitem hterminal hfailure =>
              refine .inr ⟨hlive, fun m hmem => .inl hmem, rfl, rfl, happend _, rfl, rfl, stream,
                hstream, ?_⟩
              rw [hstreamlive]
              cases e with
              | terminal kind output => exact absurd rfl (hterminal kind output)
              | _ => rfl

theorem Stands.receive (h : Stands s) (e : Event) : Stands (s.receive e) := by
  rcases receive_cases s e with heq | hr
  · rw [heq]
    exact h
  · have hnone : ∀ e' ∈ s.unread, e'.isTerminal = false := by
      intro e' he'
      by_contra hterminal
      have hdead := h.streamed.ended e' he' (by simpa using hterminal)
      rw [hr.live] at hdead
      cases hdead
    obtain ⟨stream, hstream, hlive⟩ := hr.stream
    refine ⟨⟨?_, fun e' he' hterminal => ?_, fun hinactive => ?_, fun hgone => ?_⟩, ?_⟩
    · rw [hr.unread]
      refine List.pairwise_append.mpr ⟨h.streamed.order, List.pairwise_singleton _ _, ?_⟩
      intro e' he' _ _ hterminal
      rw [hnone e' he'] at hterminal
      cases hterminal
    · rw [hr.unread, List.mem_append, List.mem_singleton] at he'
      rcases he' with he' | rfl
      · rw [hnone e' he'] at hterminal
        cases hterminal
      · rw [State.live, hstream, Option.any_some, hlive, hterminal]
        rfl
    · rw [hr.active] at hinactive
      have hdead := (h.streamed.inactive hinactive).2
      rw [hr.live] at hdead
      cases hdead
    · cases hstream.symm.trans hgone
    · rw [Standing, hr.place, h.waiting hr.live]
      trivial

theorem Told.receive (h : Told name said dispatched s) {e : Event}
    (he : ∀ m ∈ e.items, Named name m) : Told name said dispatched (s.receive e) := by
  rcases receive_cases s e with heq | hr
  · rw [heq]
    exact h
  · have hids : (s.receive e).ids = s.ids := by rw [State.ids, State.ids, hr.calls]
    refine ⟨fun m hmem => ?_, fun e' he' m hm => ?_, ?_, hids ▸ h.dispatched, hids ▸ h.nodup,
      hr.spoken ▸ h.said, hr.spoken ▸ h.spoken⟩
    · exact (hr.history m hmem).elim (h.history m) (he m)
    · rw [hr.unread, List.mem_append, List.mem_singleton] at he'
      rcases he' with he' | rfl
      · exact h.unread e' he' m hm
      · exact he m hm
    · rw [hr.calls]
      exact h.calls

/-- A summary keeps nothing that the model produced. -/
theorem mem_of_summarized {summary : Option String} {full : List Item}
    (h : .produced m ∈ (summary.map (summarize · full)).getD full) : .produced m ∈ full := by
  cases summary with
  | none => exact h
  | some text =>
      change Item.produced m ∈ summarize text full at h
      unfold summarize at h
      split at h
      · rcases List.mem_append.mp h with h | h
        · rcases List.mem_append.mp h with h | h
          · exact (List.mem_filter.mp h).1
          · cases List.mem_singleton.mp h
        · obtain ⟨_, -, heq⟩ := Option.map_eq_some_iff.mp (Option.mem_toList.mp h)
          cases heq
      · exact h

theorem Told.request (h : Told name said dispatched s) (hstands : Stands s)
    (summary : Option String) : Told name said dispatched (s.request summary).2 := by
  have hstanding := hstands.standing
  unfold Standing at hstanding
  unfold State.request
  split
  · next hp =>
      rw [hp] at hstanding
      exact ⟨fun m hmem => h.history m (hstanding.2 m (mem_of_summarized hmem)), h.unread, h.calls,
        h.dispatched, h.nodup, h.said, h.spoken⟩
  · exact h

theorem Told.run (h : Told name said dispatched s) (text : String) (limit : Option Nat)
    (needsWork : Bool) :
    Told name (said ++ (s.run text limit needsWork).out.saidIds)
      (dispatched ++ (s.run text limit needsWork).out.dispatched)
      (s.run text limit needsWork).state ∧
    ∀ m, .produced m ∈ s.history → HasTask m (s.run text limit needsWork).state := by
  obtain ⟨htelling, -, htask⟩ := h.redispatch text limit
  have hs : Still (s.redispatch text limit).state
      { (s.redispatch text limit).state with reader := .waiting, message := .waiting } :=
    .of_unread rfl rfl rfl (List.sublist_append_right _ _)
  rw [run_eq htelling.raised]
  have hready := htelling.told.still hs
  refine ⟨Told.resume (t := { s.redispatch text limit with state := _ }) hready needsWork,
    fun m hmem c hc => ?_⟩
  have hresume := hs.trans (still_resume { s.redispatch text limit with
    state := { (s.redispatch text limit).state with reader := .waiting, message := .waiting } }
    needsWork)
  rw [ids_eq, hresume.calls, ← ids_eq]
  exact htask m hmem c hc

theorem Stands.run (h : Stands s) (htold : Told name said dispatched s) (text : String)
    (limit : Option Nat) (needsWork : Bool) : Stands (s.run text limit needsWork).state := by
  obtain ⟨htelling, -, -⟩ := htold.redispatch text limit
  have hstart : Streamed { s with
      queued := s.queued ++ (if text = "" then [] else [text]), responsesLeft := limit } :=
    ⟨h.streamed.order, h.streamed.ended, h.streamed.inactive, h.streamed.closed⟩
  have hredispatch : Streamed (s.redispatch text limit).state :=
    hstart.observes (t := { state := _ }) (observes_each observes_dispatch _ s.produced)
  have hread := hredispatch.reader _ (.inr rfl)
  have hready : Streamed
      { (s.redispatch text limit).state with reader := .waiting, message := .waiting } :=
    ⟨hread.order, hread.ended, hread.inactive, hread.closed⟩
  rw [run_eq htelling.raised]
  exact Streamed.resume (t := { s.redispatch text limit with state := _ }) hready
    htelling.told.nodup needsWork

theorem streamed_readMessage (h : Streamed s) : Streamed s.readMessage := by
  have hs := still_readMessage s
  revert hs
  unfold State.readMessage
  split
  · exact fun hs => h.still hs rfl (fun hdead => hdead) fun hnone => hnone
  · exact fun _ => h

theorem Stands.wake (h : Stands s) (htold : Told name said dispatched s) (needsWork : Bool) :
    Stands (s.wake needsWork).state := by
  have hread := h.streamed.readEvent
  have hnodup := htold.reads.told.nodup
  unfold State.wake
  split
  · exact hread.resume hnodup needsWork
  · have hs := still_readMessage s.readEvent.state
    have hids : s.readEvent.state.readMessage.ids = s.readEvent.state.ids := by
      rw [ids_eq, ids_eq, hs.calls]
    exact Streamed.resume (t := { s.readEvent with state := s.readEvent.state.readMessage })
      (streamed_readMessage hread) (hids ▸ hnodup) needsWork

/-! ## Calls -/

/-- The items that come in are those their ids name. -/
def Names (name : String → ModelItem) : Act → Prop
  | .receive e => ∀ m ∈ e.items, Named name m
  | _ => True

structure Sound (name : String → ModelItem) (log : Log) (s : State) : Prop where
  told : Told name (saidIds log) (dispatchedIds log) s
  stands : Stands s

theorem saidIds_snoc (log : Log) (e : Act × Output) :
    saidIds (log ++ [e]) = saidIds log ++ e.2.saidIds := by
  rw [saidIds, saidIds, List.flatMap_append, List.flatMap_singleton]

theorem dispatchedIds_snoc (log : Log) (e : Act × Output) :
    dispatchedIds (log ++ [e]) = dispatchedIds log ++ e.2.dispatched := by
  rw [dispatchedIds, dispatchedIds, List.flatMap_append, List.flatMap_singleton]

theorem Sound.next {log : Log} {e : Act × Output}
    (htold : Told name (saidIds log ++ e.2.saidIds) (dispatchedIds log ++ e.2.dispatched) s')
    (hstands : Stands s') : Sound name (log ++ [e]) s' := by
  refine ⟨?_, hstands⟩
  rw [saidIds_snoc, dispatchedIds_snoc]
  exact htold

/-- Nothing is spoken or dispatched. -/
theorem Sound.silent {log : Log} {a : Act} (htold : Told name (saidIds log) (dispatchedIds log) s')
    (hstands : Stands s') : Sound name (log ++ [(a, ({} : Output))]) s' := by
  refine .next ?_ hstands
  have hnil : Output.saidIds {} = [] := rfl
  rw [hnil, List.append_nil, List.append_nil]
  exact htold

theorem Sound.step {log : Log} (h : Sound name log s) {a : Act} (hnames : Names name a) :
    Sound name (log ++ [(a, (Responses.step s a).1)]) (Responses.step s a).2 := by
  obtain ⟨htold, hstands⟩ := h
  cases a with
  | run text limit needsWork =>
      simp only [Responses.step]
      split
      · exact .next (htold.run text limit needsWork).1 (hstands.run htold text limit needsWork)
      · exact .silent htold hstands
  | wake needsWork =>
      simp only [Responses.step]
      split
      · exact .next (htold.wake needsWork) (hstands.wake htold needsWork)
      · exact .silent htold hstands
  | steer text =>
      have hs : Still s { s with messages := s.messages ++ [text] } :=
        .of_unread rfl rfl rfl (.refl _)
      exact .silent (htold.still hs) (hstands.beside hs ⟨rfl, rfl, rfl⟩)
  | notifyFact value =>
      have hs : Still s { s with facts := s.facts ++ [value] } := .of_unread rfl rfl rfl (.refl _)
      exact .silent (htold.still hs) (hstands.beside hs ⟨rfl, rfl, rfl⟩)
  | toolDone callId output =>
      have hs := still_toolDone s callId output
      exact .silent (htold.still hs) (hstands.beside hs ⟨rfl, rfl, rfl⟩)
  | takeMessage => exact .silent (htold.still (still_takeMessage s)) hstands.takeMessage
  | takeOrphan => exact .silent (htold.still (still_takeOrphan s)) hstands.takeOrphan
  | takeEvent => exact .silent (htold.still (still_takeEvent s)) hstands.takeEvent
  | prepare context => exact .silent (htold.still (still_prepare s context)) (hstands.prepare context)
  | settle => exact .silent (htold.still (still_settle s)) hstands.settle
  | request summary =>
      have hout : (s.request summary).1.saidIds = [] ∧ (s.request summary).1.dispatched = [] := by
        unfold State.request
        split <;> exact ⟨rfl, rfl⟩
      refine .next ?_ (hstands.request summary)
      rw [Responses.step, hout.1, hout.2, List.append_nil, List.append_nil]
      exact htold.request hstands summary
  | fail => exact .silent (htold.still (still_fail s)) hstands.fail
  | receive e => exact .silent (htold.receive hnames) (hstands.receive e)
  | endStream => exact .silent (htold.still (still_endStream s)) hstands.endStream
  | proceed => exact .silent (htold.still (still_proceed s)) hstands.proceed
  | cancel => exact .silent (htold.still (still_cancel s)) hstands.cancel

theorem Sound.start : Sound name [] {} where
  told := ⟨fun m h => (by cases h), fun e h => (by cases h), fun c h => (by cases h), rfl,
    List.nodup_nil, rfl, List.nodup_nil⟩
  stands := ⟨⟨.nil, fun e h => (by cases h), fun _ => ⟨fun e h => (by cases h), rfl⟩,
    fun _ e h => (by cases h)⟩, rfl⟩

theorem sound_of_run {log : Log} (h : Run step (fun _ _ a => Names name a) {} log s) :
    Sound name log s :=
  h.invariant (P := Sound name) .start fun _ _ _ _ hnames hsound => hsound.step hnames

end

end Responses

end MineBot
