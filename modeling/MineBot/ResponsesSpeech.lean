import MineBot.ResponsesEffects

/-!
# Messages and calls of a history

When a run is left, its events go with the connection, and so does what they
bring: the history has the items, and a later run looks through it for calls
only. `Awaited` follows a message from the stream to the reader; `Heeds` are the
steps that leave no message behind.
-/

namespace MineBot

namespace Responses

/-! ## Messages that are still to be heard -/

/-- Every message of the history that says something has been heard. -/
def Said (s : State) : Prop :=
  ∀ m, .produced m ∈ s.history → Heard m s

/-- A message of the history has been heard, or an unread event brings it. -/
def Awaited (s : State) : Prop :=
  ∀ m, .produced m ∈ s.history → Heard m s ∨ ∃ e ∈ s.unread, m ∈ e.items

/-- The run is over, but for the tasks it has to wait for. -/
def Place.left : Place → Bool
  | .idle | .cleaningReader | .cleaningMessage | .cleaningFact => true
  | _ => false

structure Attended (s : State) : Prop where
  awaited : Awaited s
  said : s.place.left → Said s

/-- The events thrown away bring no message of the history that is still to be heard. -/
def Heeds (s : State) (a : Act) : Prop :=
  s.place = .exiting → a = .proceed ∨ a = .cancel →
    ∀ e ∈ s.unread, ∀ m ∈ e.items, .produced m ∈ s.history → Heard m s

section

variable {name : String → ModelItem} {said dispatched : List String} {s s' : State}
variable {m : ModelItem} {t : Turn}

theorem Said.awaited (h : Said s) : Awaited s := fun m hmem => .inl (h m hmem)

theorem Said.attended (h : Said s) : Attended s := ⟨h.awaited, fun _ => h⟩

theorem Said.still (h : Said s) (hs : Still s s') : Said s' := by
  intro m hmem id hid
  rw [hs.spoken]
  exact h m (hs.history ▸ hmem) id hid

theorem Awaited.still (h : Awaited s) (hs : Still s s') (hunread : ∀ e ∈ s.unread, e ∈ s'.unread) :
    Awaited s' := by
  intro m hmem
  rcases h m (hs.history ▸ hmem) with hheard | ⟨e, he, hm⟩
  · exact .inl fun id hid => hs.spoken ▸ hheard id hid
  · exact .inr ⟨e, hunread e he, hm⟩

theorem Awaited.all_said (h : Awaited s) (hspent : ∀ e ∈ s.unread, e.spent) : Said s := by
  intro m hmem
  rcases h m hmem with hheard | ⟨e, he, hm⟩
  · exact hheard
  · rw [items_of_spent (hspent e he)] at hm
    cases hm

theorem Awaited.heeds (h : Awaited s) {a : Act} (hheeds : Heeds s a) (hplace : s.place = .exiting)
    (ha : a = .proceed ∨ a = .cancel) : Said s := by
  intro m hmem
  rcases h m hmem with hheard | ⟨e, he, hm⟩
  · exact hheard
  · exact hheeds hplace ha e he m hm hmem

/-- Another party steps in. -/
theorem Attended.beside (h : Attended s) (hs : Still s s') (hplace : s'.place = s.place)
    (hunread : ∀ e ∈ s.unread, e ∈ s'.unread) : Attended s' :=
  ⟨h.awaited.still hs hunread, fun hleft => (h.said (hplace ▸ hleft)).still hs⟩

/-! ## The loop -/

theorem Awaited.interrupt (h : Awaited s) (hstreamed : Streamed s) : Attended s.interrupt := by
  have hs := still_interrupt s
  revert hs
  unfold State.interrupt
  split
  · exact fun hs => ⟨h.still hs fun e he => he, fun hleft => by cases hleft⟩
  · next hnone => exact fun hs => ((h.all_said (hstreamed.closed hnone)).still hs).attended

theorem Awaited.place (h : Awaited s) {place : Place} (hplace : place.left = false) :
    Attended { s with place } := by
  refine ⟨h, fun hleft => ?_⟩
  rw [hplace] at hleft
  cases hleft

theorem Awaited.create (h : Awaited s) (hstreamed : Streamed s) (inputs : List Item) :
    Attended (s.create inputs) := by
  unfold State.create
  split
  · exact h.interrupt hstreamed
  · exact h.place rfl

theorem Awaited.loopTop (h : Awaited s) (hstreamed : Streamed s) (needsWork : Bool) :
    Attended (s.loopTop needsWork).1 := by
  unfold State.loopTop
  split
  · exact h.place rfl
  · next hactive =>
      have hinactive : s.active = false := by simpa using hactive
      split
      · exact h.create hstreamed _
      · split
        · split
          · have hqueued : Streamed { s with queued := s.queued ++ [nudge] } :=
              ⟨hstreamed.order, hstreamed.ended, hstreamed.inactive, hstreamed.closed⟩
            exact Awaited.create (s := { s with queued := s.queued ++ [nudge] }) h hqueued _
          · exact ((h.all_said (hstreamed.inactive hinactive).1).still (still_cleanup s)).attended
        · exact h.place rfl

theorem Awaited.resume (h : Awaited t.state) (hstreamed : Streamed t.state) (needsWork : Bool) :
    Attended (t.resume needsWork).state := by
  unfold Turn.resume
  split
  · exact h.interrupt hstreamed
  · exact h.loopTop hstreamed needsWork

theorem events_readEvent (s : State) : s.readEvent.state.events = s.events := by
  have hobserves : ∀ {t t' : Turn}, t.Observes t' → t'.state.events = t.state.events := by
    rintro t _ ⟨_, _, _, _, _, rfl⟩
    rfl
  unfold State.readEvent
  split
  · rfl
  · next m _ => exact hobserves (observes_observeItem _ m)
  · next kind output _ =>
      exact hobserves (observes_each observes_observeItem
        { state := { s with reader := .waiting, active := false } } output)
  · rfl
  · rfl
  · rfl
  · rfl

/-- The event that is read has been heard. -/
theorem Awaited.readEvent (h : Awaited s) (htold : Told name said dispatched s) :
    Awaited s.readEvent.state := by
  have hreads := htold.reads
  intro m hmem
  rw [(quiet_readEvent s).history] at hmem
  rcases h m hmem with hheard | ⟨e, he, hm⟩
  · exact .inl fun id hid => hreads.spoken id (hheard id hid)
  · rcases List.mem_append.mp he with he | he
    · refine .inl (hreads.heard e ?_ m hm)
      cases hreader : s.reader with
      | done e' =>
          rw [hreader] at he
          rw [List.mem_singleton.mp he]
      | _ =>
          rw [hreader] at he
          cases he
    · exact .inr ⟨e, mem_unread (by rw [events_readEvent]; exact he), hm⟩

theorem Awaited.readMessage (h : Awaited s) : Awaited s.readMessage := by
  have hs := still_readMessage s
  revert hs
  unfold State.readMessage
  split
  · exact fun hs => h.still hs fun e he => he
  · exact fun _ => h

theorem Awaited.wake (h : Awaited s) (htold : Told name said dispatched s) (hstreamed : Streamed s)
    (needsWork : Bool) : Attended (s.wake needsWork).state := by
  have hread := h.readEvent htold
  unfold State.wake
  split
  · exact hread.resume hstreamed.readEvent needsWork
  · exact Awaited.resume (t := { s.readEvent with state := s.readEvent.state.readMessage })
      hread.readMessage (streamed_readMessage hstreamed.readEvent) needsWork

/-- A run that starts where all has been said. -/
theorem Said.run (h : Said s) (htold : Told name said dispatched s) (text : String)
    (limit : Option Nat) (needsWork : Bool) : Said (s.run text limit needsWork).state := by
  obtain ⟨htelling, hgrows, -⟩ := htold.redispatch text limit
  have hredispatch : Said (s.redispatch text limit).state := by
    intro m hmem
    rw [(quiet_redispatch s text limit).history] at hmem
    exact Heard.grows (h m hmem) hgrows
  have hs : Still (s.redispatch text limit).state
      { (s.redispatch text limit).state with reader := .waiting, message := .waiting } :=
    .of_unread rfl rfl rfl (List.sublist_append_right _ _)
  rw [run_eq htelling.raised]
  exact (hredispatch.still hs).still (still_resume { s.redispatch text limit with state := _ } _)

/-! ## Every step -/

theorem Attended.takeMessage (h : Attended s) : Attended s.takeMessage := by
  have hs := still_takeMessage s
  revert hs
  unfold State.takeMessage
  split
  · exact fun hs => h.beside hs rfl fun e he => he
  · exact fun _ => h

theorem Attended.takeOrphan (h : Attended s) : Attended s.takeOrphan := by
  have hs := still_takeOrphan s
  revert hs
  unfold State.takeOrphan
  split
  · exact fun hs => h.beside hs rfl fun e he => he
  · exact fun _ => h

theorem Attended.takeEvent (h : Attended s) : Attended s.takeEvent := by
  have hplace : s.takeEvent.place = s.place := by
    unfold State.takeEvent
    split <;> rfl
  exact h.beside (still_takeEvent s) hplace fun e he => unread_takeEvent s ▸ he

theorem Attended.endStream (h : Attended s) : Attended s.endStream := by
  have hs := still_endStream s
  revert hs
  unfold State.endStream
  split
  · exact fun _ => h
  · split
    · exact fun _ => h
    · refine fun hs => h.beside hs rfl fun e he => ?_
      rcases List.mem_append.mp he with he | he
      · exact List.mem_append_left _ he
      · refine List.mem_append_right _ ?_
        dsimp only
        split
        · exact he
        · exact List.mem_append_left _ he

theorem Attended.prepare (h : Attended s) (context : Option String) :
    Attended (s.prepare context) := by
  unfold State.prepare
  split
  · exact h.awaited.place rfl
  · exact h

theorem Attended.settle (h : Attended s) (hstreamed : Streamed s) : Attended s.settle := by
  unfold State.settle
  split
  · split
    · exact h.awaited.interrupt hstreamed
    · exact ⟨h.awaited, fun hleft => by cases hleft⟩
  · exact h

theorem Attended.fail (h : Attended s) (hstreamed : Streamed s) : Attended s.fail := by
  unfold State.fail
  split
  · exact h.awaited.interrupt hstreamed
  · exact h.awaited.interrupt hstreamed
  · exact h.awaited.interrupt hstreamed
  · exact h

theorem Attended.request (h : Attended s) (hstands : Stands s) (summary : Option String) :
    Attended (s.request summary).2 := by
  have hstanding := hstands.standing
  unfold Standing at hstanding
  unfold State.request
  split
  · next hp =>
      rw [hp] at hstanding
      have hsaid := h.awaited.all_said (hstands.streamed.inactive hstanding.1).1
      exact ⟨fun m hmem => .inl (hsaid m (hstanding.2 m (mem_of_summarized hmem))),
        fun hleft => by cases hleft⟩
  · exact h

theorem Attended.receive (h : Attended s) (hstands : Stands s) (e : Event) :
    Attended (s.receive e) := by
  rcases receive_cases s e with heq | hr
  · rw [heq]
    exact h
  · refine ⟨fun m hmem => ?_, fun hleft => ?_⟩
    · rw [hr.unread]
      rcases hr.history m hmem with hmem | hm
      · rcases h.awaited m hmem with hheard | ⟨e', he', hm⟩
        · exact .inl fun id hid => hr.spoken ▸ hheard id hid
        · exact .inr ⟨e', List.mem_append_left _ he', hm⟩
      · exact .inr ⟨e, List.mem_append_right _ (List.mem_singleton_self e), hm⟩
    · rw [hr.place, hstands.waiting hr.live] at hleft
      cases hleft

theorem Attended.proceed (h : Attended s) (hheeds : Heeds s .proceed) : Attended s.proceed := by
  have hs := still_proceed s
  revert hs
  unfold State.proceed
  split
  · next hp => exact fun hs => ((h.awaited.heeds hheeds hp (.inl rfl)).still hs).attended
  · next hp => exact fun hs => ((h.said (by rw [hp]; rfl)).still hs).attended
  · next hp => exact fun hs => ((h.said (by rw [hp]; rfl)).still hs).attended
  · next hp => exact fun hs => ((h.said (by rw [hp]; rfl)).still hs).attended
  · exact fun _ => h

theorem Attended.cancel (h : Attended s) (hstreamed : Streamed s) (hheeds : Heeds s .cancel) :
    Attended s.cancel := by
  have hs := still_cancel s
  revert hs
  unfold State.cancel
  split
  · exact fun _ => h
  · exact fun _ => h.awaited.interrupt hstreamed
  · exact fun _ => h.awaited.interrupt hstreamed
  · exact fun _ => h.awaited.interrupt hstreamed
  · exact fun _ => h.awaited.interrupt hstreamed
  · next hp => exact fun hs => ((h.awaited.heeds hheeds hp (.inr rfl)).still hs).attended
  · next hp => exact fun hs => ((h.said (by rw [hp]; rfl)).still hs).attended
  · next hp => exact fun hs => ((h.said (by rw [hp]; rfl)).still hs).attended
  · next hp => exact fun hs => ((h.said (by rw [hp]; rfl)).still hs).attended

theorem Attended.step {log : Log} (h : Attended s) (hsound : Sound name log s) {a : Act}
    (hheeds : Heeds s a) : Attended (Responses.step s a).2 := by
  obtain ⟨htold, hstands⟩ := hsound
  cases a with
  | run text limit needsWork =>
      simp only [Responses.step]
      split
      · next hplace => exact ((h.said (by rw [hplace]; rfl)).run htold text limit needsWork).attended
      · exact h
  | wake needsWork =>
      simp only [Responses.step]
      split
      · exact h.awaited.wake htold hstands.streamed needsWork
      · exact h
  | steer text => exact h.beside (.of_unread rfl rfl rfl (.refl _)) rfl fun e he => he
  | notifyFact value => exact h.beside (.of_unread rfl rfl rfl (.refl _)) rfl fun e he => he
  | toolDone callId output => exact h.beside (still_toolDone s callId output) rfl fun e he => he
  | takeMessage => exact h.takeMessage
  | takeOrphan => exact h.takeOrphan
  | takeEvent => exact h.takeEvent
  | prepare context => exact h.prepare context
  | settle => exact h.settle hstands.streamed
  | request summary => exact h.request hstands summary
  | fail => exact h.fail hstands.streamed
  | receive e => exact h.receive hstands e
  | endStream => exact h.endStream
  | proceed => exact h.proceed hheeds
  | cancel => exact h.cancel hstands.streamed hheeds

theorem attended_of_run {log : Log}
    (h : Run step (fun _ s a => Names name a ∧ Heeds s a) {} log s) : Attended s := by
  refine h.invariant (P := fun _ s => Attended s) ?_ fun log s a hrun hok hattended => ?_
  · exact ⟨fun m hmem => (by cases hmem), fun _ m hmem => (by cases hmem)⟩
  · exact hattended.step (sound_of_run (hrun.weaken fun _ _ _ hok => hok.1)) hok.2

/-! ## Once a later run has started -/

/-- What a history tells has been done, and once. -/
structure Effected (log : Log) (history : List Item) : Prop where
  dispatched : ∀ c, .produced (.call c) ∈ history → (dispatchedIds log).count c.callId = 1
  spoken : ∀ id content, .produced (.message (some id) content) ∈ history →
    messageText content ≠ "" → (saidIds log).count id = 1

theorem saying_of_message {id : String} {content : List Part} (h : messageText content ≠ "") :
    (ModelItem.message (some id) content).saying? = some id :=
  if_neg h

/-- A call of the history has been dispatched once, however the runs before were left. -/
theorem count_dispatched {pre post : Log} {s₁ : State} {text : String} {limit : Option Nat}
    {needsWork : Bool} {o : Output}
    (h : Run step (fun _ _ a => Names name a) {} (pre ++ (.run text limit needsWork, o) :: post) s)
    (hpre : Run step (fun _ _ a => Names name a) {} pre s₁) (hidle : s₁.place = .idle)
    {c : ToolCall} (hc : .produced (.call c) ∈ s₁.history) :
    (dispatchedIds (pre ++ (.run text limit needsWork, o) :: post)).count c.callId = 1 := by
  obtain ⟨s₁', hpre', hpost⟩ := h.split
  obtain rfl := hpre.state_unique hpre'
  obtain ⟨rfl, hnames, -⟩ := hpost.head
  have hend := (sound_of_run h).told
  have hstart := (sound_of_run (hpre.next _ hnames)).told
  have hmem : c.callId ∈ dispatchedIds (pre ++ [(.run text limit needsWork,
      (step s₁ (.run text limit needsWork)).1)]) := by
    rw [hstart.dispatched, step, if_pos hidle]
    exact ((sound_of_run hpre).told.run text limit needsWork).2 _ hc c rfl
  refine List.count_eq_one_of_mem (hend.dispatched ▸ hend.nodup) ?_
  rw [← List.singleton_append, ← List.append_assoc, dispatchedIds, List.flatMap_append]
  exact List.mem_append_left _ hmem

/-- A message that has been heard has been spoken. -/
theorem Told.mem_said (h : Told name said dispatched s) {id : String} {content : List Part}
    (hm : Named name (.message (some id) content)) (htext : messageText content ≠ "")
    (hheard : Heard (.message (some id) content) s) : id ∈ said := by
  have hutters : utters name id := by
    rw [utters, hm id rfl]
    exact decide_eq_true (saying_of_message htext)
  rw [h.said]
  exact List.mem_filter.mpr ⟨hheard id (saying_of_message htext), hutters⟩

/-- **What the history says was done was done once**, when no run was left while an
event brought a message that had not been heard. -/
theorem effects_once {pre post : Log} {s₁ : State} {text : String} {limit : Option Nat}
    {needsWork : Bool} {o : Output}
    (h : Run step (fun _ s a => Names name a ∧ Heeds s a) {}
      (pre ++ (.run text limit needsWork, o) :: post) s)
    (hpre : Run step (fun _ s a => Names name a ∧ Heeds s a) {} pre s₁)
    (hidle : s₁.place = .idle) :
    Effected (pre ++ (.run text limit needsWork, o) :: post) s₁.history := by
  have hnames := h.weaken fun _ _ _ hok => hok.1
  have hnames₁ := hpre.weaken fun _ _ _ hok => hok.1
  have hsaid : Said s₁ := (attended_of_run hpre).said (by rw [hidle]; rfl)
  have htold := (sound_of_run hnames).told
  have htold₁ := (sound_of_run hnames₁).told
  refine ⟨fun c hc => count_dispatched hnames hnames₁ hidle hc, fun id content hmem htext => ?_⟩
  have hmem₁ := htold₁.mem_said (htold₁.history _ hmem) htext (hsaid _ hmem)
  refine List.count_eq_one_of_mem (htold.said ▸ htold.spoken.filter _) ?_
  rw [saidIds, List.flatMap_append]
  exact List.mem_append_left _ hmem₁

end

/-! ### A run that is left before its events are read -/

/-- Enough for `Names`. -/
def names (name : String → ModelItem) : Act → Bool
  | .receive e => e.items.all fun m => m.key.all fun key => name key = m
  | _ => true

/-- Enough for `Heeds`. -/
def heeds (s : State) : Bool :=
  s.place ≠ .exiting || s.unread.all fun e => e.items.isEmpty

theorem names_spec {name : String → ModelItem} {a : Act} (h : names name a = true) :
    Names name a := by
  cases a with
  | receive e =>
      intro m hm key hkey
      have hall := (Option.all_eq_true _ _).mp (List.all_eq_true.mp h m hm) key hkey
      exact of_decide_eq_true hall
  | _ => trivial

theorem heeds_spec {s : State} (h : heeds s = true) (a : Act) : Heeds s a := by
  intro hplace _ e he m hm
  rw [heeds, hplace, Bool.or_eq_true] at h
  have hempty := List.all_eq_true.mp (h.resolve_left (by decide)) e he
  rw [List.isEmpty_iff.mp hempty] at hm
  cases hm

def doneMessage : ModelItem := .message (some "m") [⟨"output_text", "done"⟩]

def chatNames (id : String) : ModelItem := if id = "m" then doneMessage else .call mineCall

/-- A call and a message come in. -/
def streamedChat : List Act :=
  [.run "go" none false, .prepare none, .settle, .request none, .receive .created,
    .receive (.itemDone (.call mineCall)), .receive (.itemDone doneMessage), .takeEvent, .wake false]

def leaveChat : List Act := [.cancel, .proceed, .proceed, .proceed, .proceed]

/-- Both are read before the run is cancelled. -/
def heardChat : List Act :=
  streamedChat ++ [.takeEvent, .wake false, .takeEvent, .wake false] ++ leaveChat

def nextChat : Act := .run "again" none false

theorem run_heardChat :
    Run step (fun _ s a => Names chatNames a ∧ Heeds s a) {} ([] ++ (exec step {} heardChat).1)
      (exec step {} heardChat).2 := by
  have hpass : passes step (fun _ s a => names chatNames a && heeds s) [] {} heardChat = true := by
    decide +kernel
  refine Run.of_passes .start (fun log s a hcheck => ?_) hpass
  rw [Bool.and_eq_true] at hcheck
  exact ⟨names_spec hcheck.1, heeds_spec hcheck.2 a⟩

theorem effects_once_heard : .produced doneMessage ∈ (exec step {} heardChat).2.history ∧
    Effected ((exec step {} heardChat).1 ++ [(nextChat, (step (exec step {} heardChat).2 nextChat).1)])
      (exec step {} heardChat).2.history := by
  have hlater : Heeds (exec step {} heardChat).2 nextChat := heeds_spec (by decide +kernel) nextChat
  exact ⟨by decide +kernel, effects_once (run_heardChat.next nextChat ⟨trivial, hlater⟩)
    run_heardChat (by decide +kernel)⟩

/-- Neither is. -/
def unheardChat : List Act := streamedChat ++ leaveChat

/-- The later run dispatches the call, and the message is never spoken. -/
theorem message_unspoken : ∃ pre s₁ o s,
    Run step (fun _ _ a => Names chatNames a) {} pre s₁ ∧ s₁.place = .idle ∧
      Run step (fun _ _ a => Names chatNames a) {} (pre ++ [(nextChat, o)]) s ∧
        ¬ Effected (pre ++ [(nextChat, o)]) s₁.history := by
  have hrun : Run step (fun _ _ a => Names chatNames a) {} (exec step {} unheardChat).1
      (exec step {} unheardChat).2 := by
    refine Run.of_inputs unheardChat fun _ _ a ha => names_spec ?_
    exact List.all_eq_true.mp (by decide +kernel : unheardChat.all (names chatNames) = true) a ha
  refine ⟨_, _, _, _, hrun, by decide +kernel, hrun.next nextChat trivial, fun h => ?_⟩
  have hspoken := h.spoken "m" [⟨"output_text", "done"⟩] (by decide +kernel) (by decide +kernel)
  revert hspoken
  decide +kernel

end Responses

end MineBot
